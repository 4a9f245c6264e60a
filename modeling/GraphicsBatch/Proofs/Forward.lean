import GraphicsBatch.Proofs.Moments

/-!
# Programs that only jump forward

A program without jumps back stops by itself, although `Return` goes back. Each place where a run can still go on, the
next statement and those behind the open calls, counts for as many steps as can be taken from there, and every step
uses some of them up.
-/

namespace GraphicsBatch

/-- The label that a statement jumps to. -/
def Action.jump? : Action → Option String
  | .goto l | .gosub l => some l
  | _ => none

/-- Every `Goto` and every `Gosub` leads to a later statement. -/
def Program.JumpsForward (p : Program) : Prop :=
  ∀ i < p.size, ∀ l ∈ p.statements[i]?.bind (·.action.jump?), ∀ t ∈ p.labels.lookup (Text.upper l), i < t

instance (p : Program) : Decidable p.JumpsForward := inferInstanceAs (Decidable (∀ i < p.size, _))

/-! ## Steps that are left -/

/-- How many steps can be taken from a statement on, if all statements are calls. -/
def Program.reserve (p : Program) (i : Nat) : Nat := 2 ^ (p.size - i + 1) - 1

/-- How many steps a run can still take. -/
def State.reserve (p : Program) (s : State) : Nat := p.reserve s.pc + (s.callStack.frames.map p.reserve).sum

namespace Program

variable {p : Program} {i j : Nat}

theorem reserve_pos : 0 < p.reserve i := by
  have := Nat.one_lt_two_pow (n := p.size - i + 1) (by omega)
  unfold reserve
  omega

theorem reserve_anti (h : i ≤ j) : p.reserve j ≤ p.reserve i := by
  have := Nat.pow_le_pow_right (n := 2) (by decide) (show p.size - j + 1 ≤ p.size - i + 1 by omega)
  unfold reserve
  omega

/-- A call runs what is behind it twice: from its target and from its return on. -/
theorem reserve_eq (h : i < p.size) : p.reserve i = 2 * p.reserve (i + 1) + 1 := by
  have hexp : p.size - i + 1 = (p.size - (i + 1) + 1) + 1 := by omega
  have hpos := Nat.one_lt_two_pow (n := p.size - (i + 1) + 1) (by omega)
  unfold reserve
  rw [hexp, pow_succ]
  omega

end Program

theorem Program.JumpsForward.lt {p : Program} (hp : p.JumpsForward) {i t : Nat} {st : Statement} {l : String}
    (hst : p.statements[i]? = some st) (hl : st.action.jump? = some l) (ht : p.labels.lookup (Text.upper l) = some t) :
    i < t := by
  obtain ⟨hi, -⟩ := Array.getElem?_eq_some_iff.mp hst
  exact hp i hi l (by simp [hst, hl]) t ht

theorem Control.reserve_lt {p : Program} {s s' : State} {st : Statement} (wf : p.WellFormed) (hp : p.JumpsForward)
    (hst : p.statements[s.pc]? = some st) (hc : Control p s s' st.action) (hrun : s'.status = .running) :
    s'.reserve p < s.reserve p := by
  obtain ⟨hpc, -⟩ := Array.getElem?_eq_some_iff.mp hst
  have hhere := Program.reserve_eq hpc
  -- Every jump goes forward, and what is left behind its target is at most what is left behind here.
  have hlater : ∀ {t : Nat}, s.pc < t → p.reserve t ≤ p.reserve (s.pc + 1) := fun ht => Program.reserve_anti ht
  unfold State.reserve
  generalize hact : st.action = a at hc
  cases hc with
  | on hcalls hnext =>
    rw [hcalls, hnext]
    omega
  | stop _ hstatus => exact absurd hrun hstatus
  | goto hcalls ht =>
    have := hlater (hp.lt hst (by rw [hact, Action.jump?]) ht)
    rw [hcalls]
    omega
  | skip hcalls =>
    have := hlater (wf.skip_bounds hst hact).1
    rw [hcalls]
    omega
  | gosub hcalls ht =>
    have := hlater (hp.lt hst (by rw [hact, Action.jump?]) ht)
    rw [hcalls]
    simp only [CallStack.push, List.map_cons, List.sum_cons]
    omega
  | back hframes =>
    have := Program.reserve_pos (p := p) (i := s.pc)
    rw [hframes]
    simp only [List.map_cons, List.sum_cons]
    omega

namespace Engine

variable {σ : Type} {g : Engine} {h : Host σ} {m m' : Machine σ}

/-! ## Runs that stop -/

/-- The program waits or has ended, or something left the run. -/
def Stops (r : Machine σ × Except Trap Unit) : Prop :=
  r.2 = .ok () ∧ (r.1.state.status = .suspended ∨ r.1.state.status = .terminated) ∨ ∃ t, r.2 = .error t

theorem stops_of_ne_running (hm : m.state.status ≠ .running) : Stops (m, .ok ()) := by
  refine .inl ⟨rfl, ?_⟩
  dsimp only
  cases hstatus : m.state.status with
  | running => exact absurd hstatus hm
  | suspended => exact .inl rfl
  | terminated => exact .inr rfl

theorem run_eq_of_stops {n fuel : Nat} (hn : n ≤ fuel) (hstop : Stops (g.run h n m)) :
    g.run h fuel m = g.run h n m := by
  induction n generalizing m fuel with
  | zero =>
    have hm : m.state.status ≠ .running := by
      rcases hstop with ⟨-, hstatus | hstatus⟩ | ⟨t, ht⟩
      · simp [show m.state.status = .suspended from hstatus]
      · simp [show m.state.status = .terminated from hstatus]
      · cases ht
    rw [run_of_ne_running hm, run_of_ne_running hm]
  | succ n ih =>
    obtain ⟨fuel, rfl⟩ := Nat.exists_eq_add_of_le' (Nat.zero_lt_of_lt hn)
    by_cases hm : m.state.status ≠ .running
    · rw [run_of_ne_running hm, run_of_ne_running hm]
    · unfold run at hstop ⊢
      rw [if_neg hm] at hstop
      rw [if_neg hm, if_neg hm]
      generalize g.step h m = r at hstop ⊢
      obtain ⟨m', _ | _⟩ := r
      · rfl
      · exact ih (by omega) hstop

section

variable (wf : g.program.WellFormed) (hp : g.program.JumpsForward)

include wf hp

theorem step_reserve_lt (hstep : g.step h m = (m', .ok ())) (hrun : m'.state.status = .running) :
    m'.state.reserve g.program < m.state.reserve g.program := by
  rcases step_cases g h m with ⟨st, m₁, hc⟩ | hstands
  · have heq := hc.step_eq
    rw [hstep] at heq
    cases heq
    exact hc.control.reserve_lt wf hp hc.statement hrun
  · rw [hstep] at hstands
    rcases hstands.stops with hstatus | ⟨t, ht⟩
    · exact absurd hrun hstatus
    · cases ht

theorem run_stops {fuel : Nat} (hfuel : m.state.reserve g.program ≤ fuel) : Stops (g.run h fuel m) := by
  induction fuel generalizing m with
  | zero =>
    have := Program.reserve_pos (p := g.program) (i := m.state.pc)
    unfold State.reserve at hfuel
    omega
  | succ fuel ih =>
    unfold run
    split
    · rename_i hm
      exact stops_of_ne_running hm
    · cases hstep : g.step h m with
      | mk m' r =>
        cases r with
        | error t => exact .inr ⟨t, rfl⟩
        | ok _ =>
          by_cases hrun : m'.state.status = .running
          · have := step_reserve_lt wf hp hstep hrun
            exact ih (by omega)
          · dsimp only
            rw [run_of_ne_running hrun]
            exact stops_of_ne_running hrun

theorem not_forever (f : Nat → Machine σ)
    (hf : ∀ n, (f n).state.status = .running ∧ g.step h (f n) = (f (n + 1), .ok ())) : False := by
  have hused : ∀ n, (f n).state.reserve g.program + n ≤ (f 0).state.reserve g.program := by
    intro n
    induction n with
    | zero => omega
    | succ n ih =>
      have := step_reserve_lt wf hp (hf n).2 (hf (n + 1)).1
      omega
  have := hused ((f 0).state.reserve g.program + 1)
  omega

theorem resume_stops (hwait : m.state.status = .suspended) (e : Event) :
    ∃ n, ∀ fuel, n ≤ fuel → Stops (g.resume h fuel e m) ∧ g.resume h fuel e m = g.resume h n e m := by
  cases hresume : g.resume h 0 e m with
  | mk m' r =>
    refine ⟨m'.state.reserve g.program, fun fuel hfuel => ?_⟩
    rw [resume_eq hwait fuel, resume_eq hwait (m'.state.reserve g.program), hresume]
    cases r with
    | error t => exact ⟨.inr ⟨t, rfl⟩, rfl⟩
    | ok _ => exact ⟨run_stops wf hp hfuel, run_eq_of_stops hfuel (run_stops wf hp (Nat.le_refl _))⟩

end

/-- A program that only jumps forward stops, in whatever state and with whatever host, within the steps of its reserve. -/
theorem run_stops_of_jumpsForward {source : String} {pedantic : Bool} {p : Program}
    (hparse : Program.parse source pedantic = .ok p) (hp : p.JumpsForward) (maxStack : Int) (trace : Bool) (h : Host σ)
    (m : Machine σ) :
    let g : Engine := ⟨p, maxStack, trace⟩
    (∀ fuel, m.state.reserve p ≤ fuel →
      Stops (g.run h fuel m) ∧ g.run h fuel m = g.run h (m.state.reserve p) m) ∧
    (m.state.status = .suspended → ∀ e, ∃ n, ∀ fuel, n ≤ fuel →
      Stops (g.resume h fuel e m) ∧ g.resume h fuel e m = g.resume h n e m) ∧
    ¬ ∃ f : Nat → Machine σ, f 0 = m ∧
      ∀ n, (f n).state.status = .running ∧ g.step h (f n) = (f (n + 1), .ok ()) := by
  intro g
  obtain ⟨lines, hl, rfl⟩ := Program.parse_eq_ofLines hparse
  have wf : g.program.WellFormed := Program.ofLines_wellFormed hl
  refine ⟨fun fuel hfuel => ?_, fun hwait e => resume_stops wf hp hwait e, ?_⟩
  · exact ⟨run_stops wf hp hfuel, run_eq_of_stops hfuel (run_stops wf hp (Nat.le_refl _))⟩
  · rintro ⟨f, -, hf⟩
    exact not_forever wf hp f hf

def nestedCalls : String := "Gosub a If n<2 Then Gosub b\nEnd\nA: Gosub b\nB: Set n=n+1 WaitInput(9)\nReturn"

theorem run_stops_of_jumpsForward_nested : ∃ p, Program.parse nestedCalls false = .ok p ∧ p.JumpsForward ∧
    let g : Engine := ⟨p, 9, false⟩
    let h : Host Unit := .silent fun _ w => w
    let m := g.after h ⟨{}, ()⟩ [.run 9]
    m.state.status = .suspended ∧ m.state.callStack.frames = [6, 1] ∧
      ∃ n, ∀ fuel, n ≤ fuel → Stops (g.resume h fuel ⟨.timeout, []⟩ m) ∧
        g.resume h fuel ⟨.timeout, []⟩ m = g.resume h n ⟨.timeout, []⟩ m := by
  have hsome : (Program.parse nestedCalls false).toOption.map (fun p =>
      (decide p.JumpsForward, (after ⟨p, 9, false⟩ (.silent fun _ w => w) ⟨{}, ()⟩ [.run 9]).state.status,
        (after ⟨p, 9, false⟩ (.silent fun _ w => w) ⟨{}, ()⟩ [.run 9]).state.callStack.frames)) =
      some (true, .suspended, [6, 1]) := by decide +kernel
  obtain ⟨p, hparse, heq⟩ := Except.exists_of_map_toOption hsome
  obtain ⟨hforward, hrest⟩ := Prod.mk.inj heq
  obtain ⟨hwait, hframes⟩ := Prod.mk.inj hrest
  have hp : p.JumpsForward := of_decide_eq_true hforward
  exact ⟨p, hparse, hp, hwait, hframes,
    (run_stops_of_jumpsForward hparse hp 9 false (.silent fun _ w => w) _).2.1 hwait ⟨.timeout, []⟩⟩

end Engine

end GraphicsBatch
