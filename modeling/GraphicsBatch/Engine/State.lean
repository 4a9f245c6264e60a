import GraphicsBatch.Engine.Bindings
import GraphicsBatch.Language.Program

/-! # The state of a run -/

namespace GraphicsBatch

inductive Status where
  | running
  /-- Waiting for input. -/
  | suspended
  | terminated
deriving DecidableEq, Inhabited

def Status.name : Status → String
  | running => "running"
  | suspended => "suspended"
  | terminated => "terminated"

/-- Where the open calls of `Gosub` return to. -/
structure CallStack where
  /-- Indices of statements, innermost call first. -/
  frames : List Nat
  depth : Nat
  depth_eq : depth = frames.length
deriving DecidableEq

namespace CallStack

def empty : CallStack := ⟨[], 0, rfl⟩

instance : Inhabited CallStack := ⟨empty⟩

def push (c : CallStack) (target : Nat) : CallStack where
  frames := target :: c.frames
  depth := c.depth + 1
  depth_eq := by rw [c.depth_eq, List.length_cons]

/-- The innermost call and the others. -/
def pop? (c : CallStack) : Option (Nat × CallStack) :=
  match h : c.frames with
  | [] => none
  | target :: rest =>
    some (target, {
      frames := rest
      depth := c.depth - 1
      depth_eq := by rw [c.depth_eq, h, List.length_cons, Nat.add_sub_cancel] })

end CallStack

structure State where
  /-- Index of the next statement. -/
  pc : Nat := 0
  vars : Variables := {}
  callStack : CallStack := .empty
  bindings : Bindings := {}
  status : Status := .running
  /-- Milliseconds that a wait lasts, if it is timed. -/
  timeout : Option Int := none
  waitMode : String := "NULL"
  /-- Place of the last statement that was carried out. -/
  lastPos : Option Position := none
deriving DecidableEq, Inhabited

namespace State

def advance (s : State) : State := { s with pc := s.pc + 1 }

def jump (s : State) (target : Nat) : State := { s with pc := target }

def terminate (s : State) : State := { s with status := .terminated, timeout := none }

def suspend (s : State) (timeout : Option Int) : State := { s with status := .suspended, timeout }

/-- Leaves a wait. -/
def wake (s : State) : State := { s with status := .running, timeout := none }

def set (s : State) (name : String) (value : Int) : State :=
  { s with vars := s.vars.set name value }

def value (s : State) : Operand → Int
  | .literal n => n
  | .var name => s.vars.get name

/-- The value of an argument: variables that stand for integers or keys are looked up. -/
def resolve (s : State) (a : Argument) : Value :=
  match a.kind, a.value with
  | .integer, .var name | .key, .var name => .int (s.vars.get name)
  | _, v => v

end State

end GraphicsBatch
