import GraphicsBatch.Engine.Host
import GraphicsBatch.Engine.State

/-! # What a statement does

A statement is planned before the host hears of it: how the state changes at once, what is asked of
the host, and how its answer is taken. Only the last part depends on the host.
-/

namespace GraphicsBatch

/-! ## Arithmetic -/

def minInt : Int := -9223372036854775808

def maxInt : Int := 9223372036854775807

/-- The quotient of two integers, rounded toward zero. -/
def divide (a b : Int) : Except ProgramError Int :=
  if b = 0 then .error { kind := .divisionByZero } else .ok (a.tdiv b)

/-- The exact result of an operation, whatever its size. -/
def Operator.apply : Operator → Int → Int → Except ProgramError Int
  | plus, a, b => .ok (a + b)
  | minus, a, b => .ok (a - b)
  | times, a, b => .ok (a * b)
  | divide, a, b => GraphicsBatch.divide a b

/-- Refuses a number. The error shows it, unless it is too long for that. -/
def refuse (kind : ErrorKind) (n : Int) (pos : Position) : Halt :=
  match Text.writeInt n with
  | .ok detail => .error { kind, detail, pos := some pos }
  | .error f => .conversion (.numeral f)

/-- The value of an expression. A result of an operation has to fit in 64 bits. -/
def State.eval (s : State) (e : Expr) (pos : Position) : Except Halt Int :=
  match e.more with
  | none => .ok (s.value e.first)
  | some (op, second) => do
    let n ← (op.apply (s.value e.first) (s.value second)).mapError .error
    if minInt ≤ n ∧ n ≤ maxInt then return n
    else throw (refuse .overflow n pos)

/-! ## Plans -/

structure Plan where
  /-- The state from the start of the statement on, also if the host then fails. -/
  prepared : State
  requests : List Request := []
  /-- The state after the statement, given the answer to the first request. -/
  complete : Datum → Except IntFault State

namespace Plan

/-- A plan that asks nothing of the host. -/
def quiet (before after : State) : Plan where
  prepared := before
  complete _ := .ok after

/-- A plan whose answer does not matter. -/
def asking (prepared : State) (requests : List Request) (after : State) : Plan where
  prepared
  requests
  complete _ := .ok after

end Plan

/-- The number that the host gave for a button; none counts as 0. -/
def buttonNumber (reply : Datum) : Except IntFault Int :=
  if reply.isTrue then reply.toInt else .ok 0

/-- The first key that is neither a physical one nor a known virtual one. -/
def badKey? (keys : List (Value × String)) : Option Int :=
  keys.findSome? fun (k, _) =>
    match k with
    | .int n => if isVirtualKey n then none else some n
    | _ => none

/-- Arguments that no command could have; a parsed program has none. -/
def misfit : Halt := .error { kind := .general }

/-- Plans a command with arguments. -/
def planCall (s : State) (c : Command) (args : List Argument) (pos : Position) :
    Except Halt Plan :=
  let values := args.map s.resolve
  let forward : Request := .forward c values
  match c with
  | .waitInput =>
    let timeout := match values.head? with
      | some (.int n) => some (max 0 n)
      | _ => none
    .ok (.asking s [forward] (s.suspend timeout))
  | .messageBox =>
    match values.getLast? with
    | some (.var name) =>
      .ok {
        prepared := s
        -- The variable is not sent. It takes the answer.
        requests := [.forward c values.dropLast]
        complete := fun reply => do
          let n ← buttonNumber reply
          return (s.set name n).advance }
    | _ => .error misfit
  | .setMouse =>
    match MouseRegion.ofArgs values with
    | .ok regions =>
      let s' := { s with bindings := s.bindings.setMouse regions }
      -- The command itself goes first, so the host forgets what was bound before.
      .ok (.asking s' (forward :: regions.map (.bindMouse · s.waitMode)) s'.advance)
    | .error _ => .error misfit
  | .setKeyboard =>
    match keysOfArgs values with
    | .ok keys =>
      -- The whole list is checked before any of it is bound.
      match badKey? keys with
      | some n => .error (refuse .invalidKey n pos)
      | none =>
        let s' := { s with bindings := s.bindings.setKeyboard keys }
        .ok (.asking s' (forward :: keys.map fun (k, l) => .bindKey k l) s'.advance)
    | .error _ => .error misfit
  | .setMenu =>
    match Menu.ofArgs values with
    | .ok menu =>
      let s' := { s with bindings := s.bindings.setMenu menu }
      .ok (.asking s' [forward, .showMenu menu] s'.advance)
    | .error _ => .error misfit
  | .setWaitMode =>
    match values with
    | .token mode :: _ =>
      let s' := { s with waitMode := mode }
      .ok (.asking s' [forward] s'.advance)
    | _ => .error misfit
  | _ => .ok (.asking s [forward] s.advance)

/-- Plans a statement. `maxStack` is how deep `Gosub` may nest. -/
def plan (p : Program) (maxStack : Int) (s : State) (st : Statement) : Except Halt Plan :=
  match st.action with
  | .label _ => .ok (.quiet s s.advance)
  | .plain c => .ok (.asking s [.forward c []] s.advance)
  | .goto l => do
    let target ← (p.target l (some st.pos)).mapError .error
    return .quiet s (s.jump target)
  | .gosub l => do
    -- At full depth it does not matter whether there is such a label.
    if maxStack ≤ s.callStack.depth then
      throw (.error { kind := .outOfStack, detail := l, pos := some st.pos })
    let target ← (p.target l (some st.pos)).mapError .error
    return .quiet s { s.jump target with callStack := s.callStack.push (s.pc + 1) }
  | .back =>
    match s.callStack.pop? with
    | some (target, callStack) => .ok (.quiet s { s.jump target with callStack })
    | none => .error (.error { kind := .returnWithoutGosub, pos := some st.pos })
  | .finish => .ok (.quiet s s.terminate)
  | .cond lhs op rhs skipTo =>
    .ok (.quiet s (if op.holds (s.value lhs) (s.value rhs) then s.advance else s.jump skipTo))
  | .assign v e => do
    let n ← s.eval e st.pos
    return .quiet s (s.set v n).advance
  | .call c args => planCall s c args st.pos

end GraphicsBatch
