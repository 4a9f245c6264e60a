import GraphicsBatch.Engine.Event
import GraphicsBatch.Host.Instruction
import GraphicsBatch.World

/-! # The plain host

It keeps the input bindings, the wait mode, the deadline of a timed wait and the child processes, and
draws nothing. The other hosts build on it.
-/

namespace GraphicsBatch

structure Corners where
  x1 : Int
  y1 : Int
  x2 : Int
  y2 : Int
deriving DecidableEq, Inhabited

def MouseRegion.corners (r : MouseRegion) : Corners := ⟨r.x1, r.y1, r.x2, r.y2⟩

structure Panel where
  world : World
  mouse : List Corners := []
  keyboard : KeyTable := []
  menu : Menu := []
  waitMode : Value := .text "NULL"
  /-- The time at which a timed wait is over. -/
  deadline : Option Float := none
  /-- For each child process, how often it will still be found running. -/
  children : List Nat := []
deriving Inhabited

namespace Panel

def mapWorld (f : World → World) (p : Panel) : Panel := { p with world := f p.world }

def note (p : Panel) (r : Record) : Panel := p.mapWorld (·.note r)

/-- Lets go of the child processes that have ended. -/
def reap (p : Panel) : Panel :=
  { p with children := (p.children.filter (0 < ·)).map (· - 1) }

/-! ## Waiting -/

/-- Milliseconds left of a timed wait. -/
def remaining (p : Panel) : Except NumberFault (Option Int) :=
  match p.deadline with
  | none => .ok none
  | some d => (Binary64.truncate ((d - p.world.clock) * 1000)).map fun ms => some (max 0 ms)

/-- Starts a wait, which is timed if a number of milliseconds is given. -/
def startWait (p : Panel) : Value → Except Failure Panel
  | .nothing => .ok { p with deadline := none }
  | timeout => do
    let ms ← (Binary64.ofInt (max 0 (← timeout.number))).mapError .number
    return { p with deadline := some (p.world.clock + ms / 1000) }

/-! ## Commands -/

/-- Starts a shell command and keeps track of it. -/
def launch (p : Panel) (command : Value) : Except Failure Unit × Panel :=
  let p := p.reap
  match command with
  | .text s =>
    let (started, world) := p.world.launch s
    let children := if started then p.children ++ [p.world.childLife] else p.children
    (if started then .ok () else .error .nullCharacter, { p with world, children })
  | _ => (.error .notText, p)

/-- Carries out an instruction. A message box is answered with its default button. -/
def carryOut (i : Instruction) (p : Panel) : Except Failure Datum × Panel :=
  match i with
  | .setKeyboard => (.ok .none, { p with keyboard := [] })
  | .setMenu => (.ok .none, { p with menu := [] })
  | .setMouse => (.ok .none, { p with mouse := [] })
  | .setWaitMode mode => (.ok .none, { p with waitMode := mode })
  | .wait timeout =>
    match p.startWait timeout with
    | .ok p' => (.ok .none, p')
    | .error f => (.error f, p)
  | .run command =>
    let (result, p') := p.launch command
    (result.map fun _ => .none, p')
  | .number _ _ n => (n.numberText.map fun _ => .none, p)
  | .messageBox type default _ _ _ =>
    ((messageBoxChoice type default).map fun (_, n) => .int n, p)
  | _ => (.ok .none, p)

def bindMouse (p : Panel) (r : MouseRegion) : Panel := { p with mouse := p.mouse ++ [r.corners] }

def bindKey (p : Panel) (k : Value) (label : String) : Panel :=
  { p with keyboard := p.keyboard.insert k label }

def showMenu (p : Panel) (menu : Menu) : Panel := { p with menu }

/-- What becomes of a command given by name: hosts pass over names they do not know. -/
def instructionOf (name : String) (args : List Value) : Option (Except Failure Instruction) :=
  match Command.ofName? name with
  | none => none
  | some c =>
    match Instruction.ofCall? c args with
    | some i => some (.ok i)
    | none => some (.error misplaced)

def unsupported (name : String) : Record := ⟨.debug, "Ignored unsupported command " ++ name⟩

/-- Carries out the command of a name. -/
def forward (name : String) (args : List Value) (p : Panel) : Except Failure Datum × Panel :=
  match instructionOf name args with
  | none => (.ok .none, p.note (unsupported name))
  | some (.error f) => (.error f, p)
  | some (.ok i) => p.carryOut i

def call (r : Request) (p : Panel) : Except Signal Datum × Panel :=
  match r with
  | .checkEvents => (.ok .none, p)
  | .forward c args =>
    let (result, p') := p.forward c.name args
    (result.mapError .failure, p')
  | .bindMouse region _ => (.ok .none, p.bindMouse region)
  | .bindKey k l => (.ok .none, p.bindKey k l)
  | .showMenu menu => (.ok .none, p.showMenu menu)

def host : Host Panel where
  call
  note r p := p.note r

/-- Nothing will ever happen here but the end. -/
def waitEvent (p : Panel) : Event × Panel := ({ kind := .quit }, p)

end Panel

end GraphicsBatch
