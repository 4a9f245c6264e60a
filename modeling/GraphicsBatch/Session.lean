import GraphicsBatch.Engine.Step
import GraphicsBatch.Files
import GraphicsBatch.Frontend
import GraphicsBatch.Language.Parse
import GraphicsBatch.Text.Encoding

/-! # Sessions

A session holds a program and its run, and works it with a host. The host's state is handed in and
returned with each operation.
-/

namespace GraphicsBatch

/-! ## Sources -/

inductive Source where
  | text (s : String)
  | bytes (b : List UInt8)
deriving DecidableEq, Inhabited

def latin1Note : Record := ⟨.debug, "Program is not valid UTF-8, reading as Latin-1"⟩

/-- The text of a source. Bytes that are no UTF-8 are read as Latin-1, and this is noted. -/
def Source.decode : Source → String × List Record
  | text s => (s, [])
  | bytes b =>
    match Text.ofUtf8? b with
    | some s => (s, [])
    | none => (Text.ofLatin1 b, [latin1Note])

def parsedNote (p : Program) : Record :=
  ⟨.debug, "Parsed " ++ toString p.size ++ " statements in " ++ toString p.groups.length ++
    " groups, " ++ toString p.labels.length ++ " labels"⟩

/-- The program of a source, with what there is to note on the way. -/
def Source.parse (s : Source) (pedantic : Bool) : Except ParseFault Program × List Record :=
  let (decoded, notes) := s.decode
  match Program.parse decoded pedantic with
  | .ok p => (.ok p, notes ++ [parsedNote p])
  | .error f => (.error f, notes)

/-! ## Sessions -/

structure Session where
  pedantic : Bool := false
  maxStack : Int := 10000
  /-- Log each statement before it is carried out. -/
  trace : Bool := false
  program : Option Program := none
  /-- The run of the program; there is none before it is loaded and after it is closed. -/
  state : Option State := none

inductive SessionFault where
  | notLoaded
  | unparsable (f : ParseFault)
  | unreadable (f : FileFault)
  | notAnInteger (f : IntFault)
  | run (f : RunFault)
deriving DecidableEq, Inhabited

namespace Session

variable {σ : Type}

/-- The result of an operation, with the session and the host after it. -/
abbrev Outcome (σ α : Type) := Except SessionFault α × Session × σ

def noteAll (h : Host σ) (notes : List Record) (w : σ) : σ := notes.foldl (fun w r => h.note r w) w

/-- Loads a program and starts its run. A source that is no program changes nothing. -/
def load (s : Session) (h : Host σ) (source : Source) (w : σ) : Outcome σ Program :=
  let (result, notes) := source.parse s.pedantic
  let w := noteAll h notes w
  match result with
  | .ok p => (.ok p, { s with program := some p, state := some {} }, w)
  | .error f => (.error (.unparsable f), s, w)

def loadFile (s : Session) (h : Host σ) (files : Files) (path : String) (w : σ) :
    Outcome σ Program :=
  match files.read path with
  | .ok bytes => s.load h (.bytes bytes) w
  | .error f => (.error (.unreadable f), s, w)

/-- Starts the run anew, as is done for another host. -/
def restart (s : Session) : Session := { s with state := s.state.map fun _ => {} }

/-- Ends the run. The program can still be looked at. -/
def close (s : Session) : Session := { s with state := none }

/-- Lets the engine work on the run, if there is one. -/
def withRun {ε : Type} (s : Session) (w : σ) (fault : ε → RunFault)
    (f : Engine → Machine σ → Machine σ × Except ε Unit) : Outcome σ Status :=
  match s.program, s.state with
  | some p, some state =>
    let g : Engine := { program := p, maxStack := s.maxStack, trace := s.trace }
    match f g ⟨state, w⟩ with
    | (m, .ok ()) => (.ok m.state.status, { s with state := some m.state }, m.world)
    | (m, .error e) => (.error (.run (fault e)), { s with state := some m.state }, m.world)
  | _, _ => (.error .notLoaded, s, w)

def run (s : Session) (h : Host σ) (fuel : Nat) (w : σ) : Outcome σ Status :=
  s.withRun w .trap fun g m => g.run h fuel m

def step (s : Session) (h : Host σ) (w : σ) : Outcome σ Status :=
  s.withRun w .trap fun g m => g.step h m

def resume (s : Session) (h : Host σ) (fuel : Nat) (e : Event) (w : σ) : Outcome σ Status :=
  s.withRun w .trap fun g m => g.resume h fuel e m

/-- Runs the program at a frontend until it ends. The frontend is closed then, also if there is no
program. -/
def pump (s : Session) (c : Frontend σ) (fuel : Nat) (w : σ) : Outcome σ Status :=
  match s.withRun w id fun g m => c.runAndServe g fuel m with
  | (result, s', w') => (result, s', c.close w')

/-! ## Questions -/

def getState (s : Session) : Except SessionFault State :=
  match s.state with
  | some state => .ok state
  | none => .error .notLoaded

def get (s : Session) (name : String) : Except SessionFault Int :=
  s.getState.map fun state => state.vars.get name

/-- Gives a variable a value from outside. -/
def set (s : Session) (name : String) (value : Datum) : Except SessionFault Session := do
  let state ← s.getState
  match value.toInt with
  | .ok n => return { s with state := some (state.set name n) }
  | .error f => throw (.notAnInteger f)

end Session

end GraphicsBatch
