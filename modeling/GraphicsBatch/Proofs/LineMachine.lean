import GraphicsBatch.Proofs.Reachable

/-!
# A machine on lines

The same language, run on its lines: control is at a place on a line and not at an index of one long row of
statements. A condition that fails goes to the next line, and a label is looked for where it stands. What
commands do to the memory and ask of the host is taken over as it is.
-/

namespace GraphicsBatch

/-- A place in a program: a line, and how many statements of the line are in front of it. -/
structure Place where
  line : Nat
  offset : Nat
deriving DecidableEq, Inhabited

/-- All that a run remembers besides its place and its calls. -/
structure Memory where
  vars : Variables := {}
  bindings : Bindings := {}
  status : Status := .running
  timeout : Option Int := none
  waitMode : String := "NULL"
  lastPos : Option Position := none
deriving DecidableEq, Inhabited

def State.memory (s : State) : Memory where
  vars := s.vars
  bindings := s.bindings
  status := s.status
  timeout := s.timeout
  waitMode := s.waitMode
  lastPos := s.lastPos

namespace Memory

def state (mem : Memory) (pc : Nat) (callStack : CallStack) : State where
  pc
  vars := mem.vars
  callStack
  bindings := mem.bindings
  status := mem.status
  timeout := mem.timeout
  waitMode := mem.waitMode
  lastPos := mem.lastPos

/-- A state to look up and compute values in. -/
def scratch (mem : Memory) : State := mem.state 0 .empty

def set (mem : Memory) (name : String) (value : Int) : Memory := { mem with vars := mem.vars.set name value }

def terminate (mem : Memory) : Memory := { mem with status := .terminated, timeout := none }

def wake (mem : Memory) : Memory := { mem with status := .running, timeout := none }

end Memory

structure LineState where
  place : Place := ⟨0, 0⟩
  /-- Where the open calls return to, innermost call first. -/
  calls : List Place := []
  memory : Memory := {}
deriving DecidableEq, Inhabited

structure LinePlan where
  prepared : LineState
  requests : List Request := []
  complete : Datum → Except IntFault LineState

structure LineMachine (σ : Type) where
  state : LineState
  world : σ

structure LineEngine where
  lines : List (List Statement)
  maxStack : Int
  trace : Bool

namespace LineEngine

/-! ## Places -/

def statement? (e : LineEngine) (pt : Place) : Option Statement := e.lines[pt.line]?.bind (·[pt.offset]?)

def nextLine (pt : Place) : Place := ⟨pt.line + 1, 0⟩

/-- The next place on the line, or the start of the next line. -/
def next (e : LineEngine) (pt : Place) : Place :=
  if (e.statement? ⟨pt.line, pt.offset + 1⟩).isSome then ⟨pt.line, pt.offset + 1⟩ else nextLine pt

/-- The first label of this name, searched for line by line. -/
def label? (e : LineEngine) (name : String) : Option Place :=
  e.lines.zipIdx.findSome? fun (line, k) =>
    (line.findIdx? fun st => st.action.labelKey? = some (Text.upper name)).map fun o => ⟨k, o⟩

/-- The place just behind a label. -/
def target (e : LineEngine) (name : String) (pos : Option Position) : Except ProgramError Place :=
  match e.label? name with
  | some pt => .ok (e.next pt)
  | none => .error { kind := .undefinedLabel, detail := name, pos }

/-! ## Statements -/

/-- What a command does. It goes on to the next place, unless it starts to wait. -/
def planCall (e : LineEngine) (l : LineState) (c : Command) (args : List Argument) (pos : Position) :
    Except Halt LinePlan := do
  let pl ← GraphicsBatch.planCall l.memory.scratch c args pos
  return {
    prepared := { l with memory := pl.prepared.memory }
    requests := pl.requests
    complete := fun reply => do
      let s ← pl.complete reply
      return { l with
        place := if s.status = .suspended then l.place else e.next l.place
        memory := s.memory } }

def plan (e : LineEngine) (l : LineState) (st : Statement) : Except Halt LinePlan :=
  let onward := { l with place := e.next l.place }
  match st.action with
  | .label _ => .ok { prepared := l, complete := fun _ => .ok onward }
  | .plain c => .ok { prepared := l, requests := [.forward c []], complete := fun _ => .ok onward }
  | .goto name => do
    let pt ← (e.target name (some st.pos)).mapError .error
    return { prepared := l, complete := fun _ => .ok { l with place := pt } }
  | .gosub name => do
    if e.maxStack ≤ l.calls.length then
      throw (.error { kind := .outOfStack, detail := name, pos := some st.pos })
    let pt ← (e.target name (some st.pos)).mapError .error
    return { prepared := l, complete := fun _ => .ok { l with place := pt, calls := e.next l.place :: l.calls } }
  | .back =>
    match l.calls with
    | pt :: calls => .ok { prepared := l, complete := fun _ => .ok { l with place := pt, calls } }
    | [] => .error (.error { kind := .returnWithoutGosub, pos := some st.pos })
  | .finish => .ok { prepared := l, complete := fun _ => .ok { l with memory := l.memory.terminate } }
  | .cond lhs op rhs _ =>
    let holds := op.holds (l.memory.scratch.value lhs) (l.memory.scratch.value rhs)
    .ok { prepared := l, complete := fun _ => .ok (if holds then onward else { l with place := nextLine l.place }) }
  | .assign v x => do
    let n ← l.memory.scratch.eval x st.pos
    return { prepared := l, complete := fun _ => .ok { onward with memory := l.memory.set v n } }
  | .call c args => e.planCall l c args st.pos

/-! ## Runs -/

variable {σ : Type}

def perform (e : LineEngine) (h : Host σ) (st : Statement) (m : LineMachine σ) : LineMachine σ × Option Halt :=
  match h.ask .checkEvents m.world with
  | (.error x, w) => (⟨m.state, w⟩, some x)
  | (.ok _, w) =>
    match e.plan m.state st with
    | .error x => (⟨m.state, w⟩, some x)
    | .ok pl =>
      match h.askAll pl.requests w with
      | (.error x, w') => (⟨pl.prepared, w'⟩, some x)
      | (.ok reply, w') =>
        match pl.complete reply with
        | .ok l => (⟨l, w'⟩, none)
        | .error f => (⟨pl.prepared, w'⟩, some (.conversion f))

def terminate (m : LineMachine σ) : LineMachine σ :=
  { m with state := { m.state with memory := m.state.memory.terminate } }

/-- The run when a statement is about to be carried out. -/
def entering (e : LineEngine) (h : Host σ) (st : Statement) (m : LineMachine σ) : LineMachine σ where
  state := { m.state with memory := { m.state.memory with lastPos := some st.pos } }
  world := if e.trace then h.note ⟨.debug, "[" ++ st.pos.render ++ "] " ++ st.render⟩ m.world else m.world

/-- How a step ends when its statement is done with. -/
def conclude (h : Host σ) (pos : Position) : LineMachine σ × Option Halt → LineMachine σ × Except Trap Unit
  | (m, none) => (m, .ok ())
  | (m, some .exit) => (⟨(terminate m).state, h.note Engine.shutDown m.world⟩, .ok ())
  | (m, some (.error x)) => (terminate m, .error (.error (x.locate pos)))
  | (m, some .interrupt) => (m, .error .interrupt)
  | (m, some (.conversion f)) => (m, .error (.conversion f))

def step (e : LineEngine) (h : Host σ) (m : LineMachine σ) : LineMachine σ × Except Trap Unit :=
  if m.state.memory.status ≠ .running then (m, .ok ())
  else match e.statement? m.state.place with
    | none => (terminate m, .ok ())
    | some st => conclude h st.pos (e.perform h st (e.entering h st m))

def run (e : LineEngine) (h : Host σ) : (fuel : Nat) → LineMachine σ → LineMachine σ × Except Trap Unit
  | 0, m => (m, .ok ())
  | fuel + 1, m =>
    if m.state.memory.status ≠ .running then (m, .ok ())
    else match e.step h m with
      | (m', .ok ()) => e.run h fuel m'
      | (m', .error t) => (m', .error t)

def wakeAt (e : LineEngine) (l : LineState) : Option String → Except Trap (Option LineState)
  | none => .ok none
  | some name => do
    let pt ← (e.target name none).mapError .error
    return some { l with place := pt, memory := l.memory.wake }

def react (e : LineEngine) (l : LineState) : Input → Except Trap (Option LineState)
  | .click x y => do
    match ← (l.memory.bindings.matchMouse x y).mapError fun _ => Trap.misfit with
    | some r =>
      let memory := (l.memory.set r.varX x.whole).set r.varY y.whole
      e.wakeAt { l with memory } (some r.label)
    | none => return none
  | .key code char ctrl => do
    e.wakeAt l (← (l.memory.bindings.matchKey code char ctrl).mapError fun _ => .misfit)
  | .menu id => do
    e.wakeAt l (← (l.memory.bindings.matchMenu id).mapError fun _ => .misfit)
  | .timeout =>
    .ok (if l.memory.timeout.isSome then some { l with place := e.next l.place, memory := l.memory.wake } else none)
  | .quit => .ok none

def resume (e : LineEngine) (h : Host σ) (fuel : Nat) (ev : Event) (m : LineMachine σ) :
    LineMachine σ × Except Trap Unit :=
  if m.state.memory.status ≠ .suspended then (m, .ok ())
  else match ev.read with
    | .unknown => (⟨m.state, h.note ⟨.debug, "Ignoring unknown event " ++ ev.describe⟩ m.world⟩, .ok ())
    | .misfit => (m, .error .misfit)
    | .input .quit => (⟨(terminate m).state, h.note Engine.shutDown m.world⟩, .ok ())
    | .input i =>
      match e.react m.state i with
      | .ok (some l) => e.run h fuel ⟨l, m.world⟩
      | .ok none => (m, .ok ())
      | .error t => (m, .error t)

def apply (e : LineEngine) (h : Host σ) (m : LineMachine σ) : Op → LineMachine σ × Except Trap Unit
  | .step => e.step h m
  | .run fuel => e.run h fuel m
  | .resume fuel ev _ => e.resume h fuel ev m
  | .assign name value => (⟨{ m.state with memory := m.state.memory.set name value }, m.world⟩, .ok ())

def after (e : LineEngine) (h : Host σ) (m : LineMachine σ) (ops : List Op) : LineMachine σ :=
  ops.foldl (fun m op => (e.apply h m op).1) m

end LineEngine

end GraphicsBatch
