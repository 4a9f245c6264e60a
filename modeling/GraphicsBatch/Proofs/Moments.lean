import GraphicsBatch.Proofs.Failures
import GraphicsBatch.Proofs.Invariants
import GraphicsBatch.Proofs.Turns

/-!
# Runs, moment by moment

A step either carries out its statement or leaves control, calls and variables where they are. What becomes of control
is said once for each kind of statement. Runs and resumptions are rows of moments: statements, events and assignments
from outside.
-/

namespace GraphicsBatch

/-! ## Control -/

theorem CallStack.eq_of_frames {c c' : CallStack} (h : c.frames = c'.frames) : c = c' := by
  obtain ⟨frames, depth, hdepth⟩ := c
  obtain ⟨frames', depth', hdepth'⟩ := c'
  cases h
  subst hdepth hdepth'
  rfl

/-- Where control goes when a statement is carried out, and what becomes of the open calls. -/
inductive Control (p : Program) (s s' : State) : Action → Prop where
  | on {a : Action} : s'.callStack = s.callStack → s'.pc = s.pc + 1 → Control p s s' a
  | stop {a : Action} : s'.callStack = s.callStack → s'.status ≠ .running → Control p s s' a
  | goto {l : String} : s'.callStack = s.callStack → p.labels.lookup (Text.upper l) = some s'.pc →
      Control p s s' (.goto l)
  | skip {lhs rhs : Operand} {op : Comparison} : s'.callStack = s.callStack → Control p s s' (.cond lhs op rhs s'.pc)
  | gosub {l : String} : s'.callStack = s.callStack.push (s.pc + 1) → p.labels.lookup (Text.upper l) = some s'.pc →
      Control p s s' (.gosub l)
  | back : s.callStack.frames = s'.pc :: s'.callStack.frames → Control p s s' .back

theorem Planned.control {p : Program} {maxStack : Int} {s s' : State} {a : Action} {pl : Plan} {reply : Datum}
    (hpl : Planned p maxStack s a pl) (h : pl.complete reply = .ok s') : Control p s s' a := by
  cases hpl with
  | goto ht =>
    cases h
    exact .goto rfl ht
  | gosub _ ht =>
    cases h
    exact .gosub rfl ht
  | back hpop =>
    cases h
    exact .back (CallStack.pop?_eq_some hpop)
  | finish =>
    cases h
    exact .stop rfl (by simp [State.terminate])
  | cond lhs op rhs t =>
    obtain rfl := Except.ok.inj h
    split
    · exact .on rfl rfl
    · exact .skip rfl
  | wait args =>
    cases h
    exact .stop rfl (by simp [State.suspend])
  | messageBox _ =>
    obtain ⟨n, -, h⟩ := Except.bind_eq_ok.mp h
    cases h
    exact .on rfl rfl
  | _ =>
    cases h
    exact .on rfl rfl

/-- A statement, an event without what follows it, or an assignment from outside. -/
def Op.isSingle : Op → Bool
  | .step | .resume 0 .. | .assign .. => true
  | .run _ | .resume (_ + 1) .. => false

/-- What an operation is made of if it carries out `n` statements behind its event. -/
def Op.moments (n : Nat) : Op → List Op
  | .step => [.step]
  | .assign name value => [.assign name value]
  | .run _ => List.replicate n .step
  | .resume _ e he => .resume 0 e he :: List.replicate n .step

/-- Some operations, moment by moment. -/
inductive Moments : List Op → List Op → Prop where
  | nil : Moments [] []
  | cons {op : Op} {ops moments : List Op} (n : Nat) : Moments ops moments → Moments (op :: ops) (op.moments n ++ moments)

theorem Moments.isSingle {ops moments : List Op} (h : Moments ops moments) : ∀ op ∈ moments, op.isSingle = true := by
  induction h with
  | nil => simp
  | @cons op ops moments n _ ih =>
    refine List.forall_mem_append.mpr ⟨?_, ih⟩
    cases op <;> simp [Op.moments, Op.isSingle]

namespace Engine

variable {σ : Type}

/-! ## Steps -/

/-- The statement at hand is carried out. -/
structure CarriesOut (g : Engine) (h : Host σ) (st : Statement) (m m' : Machine σ) : Prop where
  running : m.state.status = .running
  statement : g.program.statements[m.state.pc]? = some st
  done : g.perform h st (g.entering h st m) = (m', none)

/-- Control, calls and variables are as they were, and the run does not go on by itself. -/
structure Stands (m : Machine σ) (r : Machine σ × Except Trap Unit) : Prop where
  pc : r.1.state.pc = m.state.pc
  callStack : r.1.state.callStack = m.state.callStack
  vars : r.1.state.vars = m.state.vars
  stops : r.1.state.status ≠ .running ∨ ∃ t, r.2 = .error t

variable {g : Engine} {h : Host σ} {st : Statement} {m m' : Machine σ}

theorem CarriesOut.step_eq (hc : g.CarriesOut h st m m') : g.step h m = (m', .ok ()) := by
  rw [step_eq_conclude hc.running hc.statement, hc.done]
  rfl

theorem CarriesOut.planned (hc : g.CarriesOut h st m m') : ∃ pl reply,
    Planned g.program g.maxStack (g.entering h st m).state st.action pl ∧ pl.complete reply = .ok m'.state := by
  have hperformed := performed g h st (g.entering h st m)
  rw [hc.done] at hperformed
  cases hperformed with
  | done _ hplan _ hs => exact ⟨_, _, planned_of_plan hplan, hs⟩

theorem CarriesOut.control (hc : g.CarriesOut h st m m') : Control g.program m.state m'.state st.action := by
  obtain ⟨pl, reply, hpl, hreply⟩ := hc.planned
  have hcontrol := hpl.control hreply
  generalize st.action = a at hcontrol ⊢
  -- Entering a statement only notes its place.
  cases hcontrol with
  | on hcalls hpc => exact .on hcalls hpc
  | stop hcalls hstatus => exact .stop hcalls hstatus
  | goto hcalls ht => exact .goto hcalls ht
  | skip hcalls => exact .skip hcalls
  | gosub hcalls ht => exact .gosub hcalls ht
  | back hframes => exact .back hframes

theorem step_cases (g : Engine) (h : Host σ) (m : Machine σ) :
    (∃ st m', g.CarriesOut h st m m') ∨ Stands m (g.step h m) := by
  rcases step_parts g h m with ⟨hidle, hstep⟩ | ⟨-, -, hstep⟩ | ⟨st, hrun, hst, hstep⟩
  · rw [hstep]
    exact .inr ⟨rfl, rfl, rfl, .inl hidle⟩
  · rw [hstep]
    exact .inr ⟨rfl, rfl, rfl, .inl (by simp [State.terminate])⟩
  · rcases hp : g.perform h st (g.entering h st m) with ⟨m', _ | halt⟩
    · exact .inl ⟨st, m', hrun, hst, hp⟩
    · obtain ⟨hspares, -, -⟩ := perform_halted hp
      rw [hstep, hp]
      right
      cases halt with
      | exit => exact ⟨hspares.pc, hspares.callStack, hspares.vars, .inl (by simp [conclude, State.terminate])⟩
      | interrupt => exact ⟨hspares.pc, hspares.callStack, hspares.vars, .inr ⟨_, rfl⟩⟩
      | error e => exact ⟨hspares.pc, hspares.callStack, hspares.vars, .inr ⟨_, rfl⟩⟩
      | conversion f => exact ⟨hspares.pc, hspares.callStack, hspares.vars, .inr ⟨_, rfl⟩⟩

/-! ## Single operations -/

theorem resume_callStack (e : Event) : (g.resume h 0 e m).1.state.callStack = m.state.callStack := by
  have hresumed := resumed g h 0 e m
  generalize g.resume h 0 e m = r at hresumed
  cases hresumed with
  | woken _ _ hreact => rcases react_cases hreact with ⟨x, y, r, t, -, -, rfl⟩ | ⟨t, rfl⟩ <;> rfl
  | _ => rfl

theorem run_moments (fuel : Nat) : ∃ n, (g.run h fuel m).1 = g.after h m (List.replicate n .step) := by
  induction fuel generalizing m with
  | zero => exact ⟨0, rfl⟩
  | succ fuel ih =>
    unfold run
    split
    · exact ⟨0, rfl⟩
    · cases hstep : g.step h m with
      | mk m₁ r =>
        have hfirst : (g.apply h m .step).1 = m₁ := by rw [apply, hstep]
        cases r with
        | error t => exact ⟨1, hfirst.symm⟩
        | ok _ =>
          obtain ⟨n, hn⟩ := ih (m := m₁)
          refine ⟨n + 1, hn.trans ?_⟩
          rw [← hfirst]
          rfl

theorem resume_moments (fuel : Nat) (e : Event) (he : e.isIntegral = true) :
    ∃ n, (g.resume h fuel e m).1 = g.after h m (.resume 0 e he :: List.replicate n .step) := by
  by_cases hwait : m.state.status = .suspended
  · rw [resume_eq hwait fuel e]
    cases hresume : g.resume h 0 e m with
    | mk m₁ r =>
      have hfirst : (g.apply h m (.resume 0 e he)).1 = m₁ := by rw [apply, hresume]
      cases r with
      | error t => exact ⟨0, hfirst.symm⟩
      | ok _ =>
        obtain ⟨n, hn⟩ := run_moments (g := g) (h := h) (m := m₁) fuel
        refine ⟨n, hn.trans ?_⟩
        rw [← hfirst]
        rfl
  · have hstay : ∀ fuel, g.resume h fuel e m = (m, .ok ()) := by
      intro fuel
      simp only [resume, ne_eq, hwait, not_false_eq_true, if_true]
    refine ⟨0, ?_⟩
    rw [hstay]
    exact (congrArg Prod.fst (hstay 0)).symm

/-- Whatever is done to a run, its moments lead to where it leads. -/
theorem after_moments (ops : List Op) : ∃ moments, Moments ops moments ∧ g.after h m moments = g.after h m ops := by
  induction ops generalizing m with
  | nil => exact ⟨[], .nil, rfl⟩
  | cons op ops ih =>
    have hfirst : ∃ n, (g.apply h m op).1 = g.after h m (op.moments n) := by
      cases op with
      | step => exact ⟨0, rfl⟩
      | assign name value => exact ⟨0, rfl⟩
      | run fuel => exact run_moments fuel
      | resume fuel e he => exact resume_moments fuel e he
    obtain ⟨n, hn⟩ := hfirst
    obtain ⟨moments, hmoments, heq⟩ := ih (m := (g.apply h m op).1)
    refine ⟨op.moments n ++ moments, .cons n hmoments, ?_⟩
    rw [after, List.foldl_append]
    exact (congrArg (g.after h · moments) hn.symm).trans heq

end Engine

end GraphicsBatch
