import GraphicsBatch.Engine.Step

/-! # Running a program at a host

A frontend is a host that also waits for what the user does. A program is served until it ends: each
time it waits, the frontend is asked for an event, which is delivered.
-/

namespace GraphicsBatch

structure Frontend (σ : Type) extends Host σ where
  /-- Waits for an event; `none` if nothing will ever happen. -/
  waitEvent : σ → Except Failure (Option Event) × σ
  close : σ → σ

/-- Why a run was given up. -/
inductive RunFault where
  | trap (t : Trap)
  /-- The host failed while it was waiting. -/
  | failure (f : Failure)
deriving DecidableEq, Inhabited

namespace Frontend

variable {σ : Type}

def eventNote (e : Event) : Record := ⟨.debug, "Input event " ++ e.describe⟩

/-- Delivers events for as long as the program waits, but at most `fuel` of them. -/
def serve (c : Frontend σ) (g : Engine) : (fuel : Nat) → Machine σ → Machine σ × Except RunFault Unit
  | 0, m => (m, .ok ())
  | fuel + 1, m =>
    if m.state.status ≠ .suspended then (m, .ok ())
    else match c.waitEvent m.world with
      | (.error f, w) => (⟨m.state, w⟩, .error (.failure f))
      | (.ok none, w) => (⟨m.state, w⟩, .ok ())
      | (.ok (some e), w) =>
        match g.resume c.toHost (fuel + 1) e ⟨m.state, c.note (eventNote e) w⟩ with
        | (m', .error t) => (m', .error (.trap t))
        | (m', .ok ()) => c.serve g fuel m'

/-- Runs a program and serves it. -/
def runAndServe (c : Frontend σ) (g : Engine) (fuel : Nat) (m : Machine σ) :
    Machine σ × Except RunFault Unit :=
  match g.run c.toHost fuel m with
  | (m', .error t) => (m', .error (.trap t))
  | (m', .ok ()) => c.serve g fuel m'

end Frontend

end GraphicsBatch
