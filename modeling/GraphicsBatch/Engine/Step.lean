import GraphicsBatch.Engine.Event
import GraphicsBatch.Engine.Plan

/-! # Running a program

A step carries out one statement; a run steps until the program waits or ends. An event wakes a
program that waits, if it is bound to a label.
-/

namespace GraphicsBatch

/-- A program with the settings of its run. -/
structure Engine where
  program : Program
  maxStack : Int := 10000
  /-- Log each statement before it is carried out. -/
  trace : Bool := false

/-- A run together with the state of its host. -/
structure Machine (σ : Type) where
  state : State
  world : σ

/-- What can leave a step or a resumption. -/
inductive Trap where
  | error (e : ProgramError)
  | interrupt
  /-- The answer to a message box is no number, or a number is too long to be shown. -/
  | conversion (f : IntFault)
  /-- An event with the wrong number of parts, or with parts of the wrong kind. -/
  | misfit
deriving DecidableEq, Inhabited

namespace Engine

variable {σ : Type}

/-- Lets the host check for events and then carries out a statement. -/
def perform (g : Engine) (h : Host σ) (st : Statement) (m : Machine σ) :
    Machine σ × Option Halt :=
  match h.ask .checkEvents m.world with
  | (.error e, w) => (⟨m.state, w⟩, some e)
  | (.ok _, w) =>
    match plan g.program g.maxStack m.state st with
    | .error e => (⟨m.state, w⟩, some e)
    | .ok pl =>
      match h.askAll pl.requests w with
      -- What the statement has bound stays bound.
      | (.error e, w') => (⟨pl.prepared, w'⟩, some e)
      | (.ok reply, w') =>
        match pl.complete reply with
        | .ok s => (⟨s, w'⟩, none)
        | .error f => (⟨pl.prepared, w'⟩, some (.conversion f))

def shutDown : Record := ⟨.info, "Host has shut down"⟩

/-- Carries out the next statement. Past the last one the run ends. An error of the program ends the
run too, and then it has a place. -/
def step (g : Engine) (h : Host σ) (m : Machine σ) : Machine σ × Except Trap Unit :=
  if m.state.status ≠ .running then (m, .ok ())
  else match g.program.statements[m.state.pc]? with
    | none => (⟨m.state.terminate, m.world⟩, .ok ())
    | some st =>
      -- The place is known before anything can fail.
      let state := { m.state with lastPos := some st.pos }
      let world :=
        if g.trace then h.note ⟨.debug, "[" ++ st.pos.render ++ "] " ++ st.render⟩ m.world
        else m.world
      match g.perform h st ⟨state, world⟩ with
      | (m', none) => (m', .ok ())
      | (m', some .exit) => (⟨m'.state.terminate, h.note shutDown m'.world⟩, .ok ())
      | (m', some (.error e)) =>
        (⟨m'.state.terminate, m'.world⟩, .error (.error (e.locate st.pos)))
      | (m', some .interrupt) => (m', .error .interrupt)
      | (m', some (.conversion f)) => (m', .error (.conversion f))

/-- Steps until the program waits, ends or fails, but at most `fuel` times. -/
def run (g : Engine) (h : Host σ) : (fuel : Nat) → Machine σ → Machine σ × Except Trap Unit
  | 0, m => (m, .ok ())
  | fuel + 1, m =>
    if m.state.status ≠ .running then (m, .ok ())
    else match g.step h m with
      | (m', .ok ()) => g.run h fuel m'
      | (m', .error t) => (m', .error t)

/-- Wakes a program at a label, if there is one. -/
def wakeAt (g : Engine) (s : State) : Option String → Except Trap (Option State)
  | none => .ok none
  | some label => do
    let target ← (g.program.target label none).mapError .error
    return some (s.jump target).wake

/-- The state in which a waiting program goes on after some input; `none` if it waits on. -/
def react (g : Engine) (s : State) : Input → Except Trap (Option State)
  | .click x y => do
    match ← (s.bindings.matchMouse x y).mapError fun _ => Trap.misfit with
    -- Variables hold integers, so of a place between them only the whole part is kept.
    | some r => g.wakeAt ((s.set r.varX x.whole).set r.varY y.whole) (some r.label)
    | none => return none
  | .key code char ctrl => do
    g.wakeAt s (← (s.bindings.matchKey code char ctrl).mapError fun _ => .misfit)
  | .menu id => do
    g.wakeAt s (← (s.bindings.matchMenu id).mapError fun _ => .misfit)
  -- A wait without a limit is not timed out.
  | .timeout => .ok (if s.timeout.isSome then some s.advance.wake else none)
  | .quit => .ok none

/-- Delivers an event to a program that waits, and runs on if it is bound. -/
def resume (g : Engine) (h : Host σ) (fuel : Nat) (e : Event) (m : Machine σ) :
    Machine σ × Except Trap Unit :=
  if m.state.status ≠ .suspended then (m, .ok ())
  else match e.read with
    | .unknown => (⟨m.state, h.note ⟨.debug, "Ignoring unknown event " ++ e.describe⟩ m.world⟩, .ok ())
    | .misfit => (m, .error .misfit)
    | .input .quit => (⟨m.state.terminate, h.note shutDown m.world⟩, .ok ())
    | .input i =>
      match g.react m.state i with
      | .ok (some s) => g.run h fuel ⟨s, m.world⟩
      | .ok none => (m, .ok ())
      | .error t => (m, .error t)

end Engine

end GraphicsBatch
