import GraphicsBatch.Frontend

/-!
# Runs that are served, turn by turn

A turn is one statement, or one event if the program waits. Serving a run with a bound either brings it to the end that
its turns lead to, or the run is not over within that many turns.
-/

namespace GraphicsBatch

theorem Engine.run_of_ne_running {σ : Type} {g : Engine} {h : Host σ} {m : Machine σ} (hm : m.state.status ≠ .running)
    (fuel : Nat) : g.run h fuel m = (m, .ok ()) := by
  cases fuel with
  | zero => rfl
  | succ fuel => simp only [run, ne_eq, hm, not_false_eq_true, if_true]

/-- An event comes first, and the statements that follow it are a run of their own. -/
theorem Engine.resume_eq {σ : Type} {g : Engine} {h : Host σ} {m : Machine σ} (hwait : m.state.status = .suspended)
    (fuel : Nat) (e : Event) :
    g.resume h fuel e m = match g.resume h 0 e m with
      | (m', .ok ()) => g.run h fuel m'
      | (m', .error t) => (m', .error t) := by
  have hstay : m.state.status ≠ .running := by simp [hwait]
  unfold resume
  simp only [hwait, ne_eq, not_true, if_false]
  cases e.read with
  | unknown => exact (run_of_ne_running (by exact hstay) fuel).symm
  | misfit => rfl
  | input i =>
    cases i with
    | quit => exact (run_of_ne_running (by simp [State.terminate]) fuel).symm
    | _ =>
      simp only
      split
      · rfl
      · exact (run_of_ne_running hstay fuel).symm
      · rfl

namespace Frontend

variable {σ : Type}

/-- One turn of a run: a statement, or an event if the program waits. If the run is over, how it ends. -/
def turn (c : Frontend σ) (g : Engine) (m : Machine σ) : Machine σ × Option (Except RunFault Unit) :=
  match m.state.status with
  | .terminated => (m, some (.ok ()))
  | .running =>
    match g.step c.toHost m with
    | (m', .ok ()) => (m', none)
    | (m', .error t) => (m', some (.error (.trap t)))
  | .suspended =>
    match c.waitEvent m.world with
    | (.error f, w) => (⟨m.state, w⟩, some (.error (.failure f)))
    | (.ok none, w) => (⟨m.state, w⟩, some (.ok ()))
    | (.ok (some e), w) =>
      match g.resume c.toHost 0 e ⟨m.state, c.note (eventNote e) w⟩ with
      | (m', .ok ()) => (m', none)
      | (m', .error t) => (m', some (.error (.trap t)))

/-- How a run ends, if it is over within some turns. -/
def ending? (c : Frontend σ) (g : Engine) : (turns : Nat) → Machine σ → Option (Machine σ × Except RunFault Unit)
  | 0, _ => none
  | n + 1, m =>
    match c.turn g m with
    | (m', none) => c.ending? g n m'
    | (m', some r) => some (m', r)

/-- So many turns lead from one machine to another. -/
inductive Leads (c : Frontend σ) (g : Engine) : Nat → Machine σ → Machine σ → Prop where
  | refl (m : Machine σ) : Leads c g 0 m m
  | turn {n : Nat} {m m' m'' : Machine σ} : c.turn g m = (m', none) → Leads c g n m' m'' → Leads c g (n + 1) m m''

/-- The result `x` is how the run ends, or else the run is not over within so many turns. -/
def Reports (c : Frontend σ) (g : Engine) (turns : Nat) (m : Machine σ) (x : Machine σ × Except RunFault Unit) : Prop :=
  (∃ n, c.ending? g n m = some x) ∨ x.2 = .ok () ∧ x.1.state.status ≠ .terminated ∧ c.ending? g turns m = none

variable {c : Frontend σ} {g : Engine} {m m' : Machine σ} {n k : Nat} {x : Machine σ × Except RunFault Unit}

theorem Leads.ending? (h : c.Leads g n m m') (k : Nat) : c.ending? g (n + k) m = c.ending? g k m' := by
  induction h with
  | refl m => rw [Nat.zero_add]
  | turn hturn _ ih => rw [Nat.add_right_comm, Frontend.ending?, hturn, ← ih]

theorem ending?_eq_none_of_le (h : c.ending? g n m = none) (hk : k ≤ n) : c.ending? g k m = none := by
  induction n generalizing m k with
  | zero =>
    obtain rfl := Nat.le_zero.mp hk
    rfl
  | succ n ih =>
    cases k with
    | zero => rfl
    | succ k =>
      unfold ending? at h ⊢
      split at h
      · exact ih h (Nat.le_of_succ_le_succ hk)
      · cases h

theorem ending?_unique {y : Machine σ × Except RunFault Unit} (hx : c.ending? g n m = some x)
    (hy : c.ending? g k m = some y) : x = y := by
  induction n generalizing m k with
  | zero => cases hx
  | succ n ih =>
    cases k with
    | zero => cases hy
    | succ k =>
      unfold ending? at hx hy
      rcases hturn : c.turn g m with ⟨m', _ | r⟩ <;> rw [hturn] at hx hy
      · exact ih hx hy
      · exact Option.some.inj (hx.symm.trans hy)

theorem Reports.of_leads {j : Nat} (hl : c.Leads g n m m') (h : c.Reports g k m' x) (hj : j ≤ n + k) :
    c.Reports g j m x := by
  rcases h with ⟨i, hi⟩ | ⟨hok, hstatus, hnone⟩
  · exact .inl ⟨n + i, (hl.ending? i).trans hi⟩
  · exact .inr ⟨hok, hstatus, ending?_eq_none_of_le ((hl.ending? k).trans hnone) hj⟩

/-! ## Statements in a row -/

theorem run_leads {fuel : Nat} (h : g.run c.toHost fuel m = (m', .ok ())) :
    ∃ n, c.Leads g n m m' ∧ (m'.state.status = .running → n = fuel) := by
  induction fuel generalizing m with
  | zero =>
    cases h
    exact ⟨0, .refl _, fun _ => rfl⟩
  | succ fuel ih =>
    unfold Engine.run at h
    split at h
    · rename_i hrun
      cases h
      exact ⟨0, .refl _, fun hrun' => absurd hrun' hrun⟩
    · rename_i hrun
      rw [ne_eq, Decidable.not_not] at hrun
      split at h
      · rename_i m₁ hstep
        obtain ⟨n, hl, hn⟩ := ih h
        have hturn : c.turn g m = (m₁, none) := by simp only [Frontend.turn, hrun, hstep]
        exact ⟨n + 1, .turn hturn hl, fun hrun' => congrArg (· + 1) (hn hrun')⟩
      · cases h

theorem run_fails {fuel : Nat} {t : Trap} (h : g.run c.toHost fuel m = (m', .error t)) :
    ∃ n, c.ending? g n m = some (m', .error (.trap t)) := by
  induction fuel generalizing m with
  | zero => cases h
  | succ fuel ih =>
    unfold Engine.run at h
    split at h
    · cases h
    · rename_i hrun
      rw [ne_eq, Decidable.not_not] at hrun
      split at h
      · rename_i m₁ hstep
        obtain ⟨n, hn⟩ := ih h
        exact ⟨n + 1, by simp only [Frontend.ending?, Frontend.turn, hrun, hstep, hn]⟩
      · rename_i hstep
        cases h
        exact ⟨1, by simp only [Frontend.ending?, Frontend.turn, hrun, hstep]⟩

/-! ## Serving -/

theorem serve_of_ne_suspended (h : m.state.status ≠ .suspended) (fuel : Nat) : c.serve g fuel m = (m, .ok ()) := by
  cases fuel with
  | zero => rfl
  | succ fuel => simp only [serve, ne_eq, h, not_false_eq_true, if_true]

theorem reports_of_terminated (h : m.state.status = .terminated) (n : Nat) : c.Reports g n m (m, .ok ()) :=
  .inl ⟨1, by simp only [Frontend.ending?, Frontend.turn, h]⟩

theorem run_reports {fuel bound : Nat} (h : g.run c.toHost fuel m = (m', .ok ()))
    (hserve : m'.state.status = .suspended → c.Reports g bound m' (c.serve g bound m')) (hbound : bound ≤ fuel) :
    c.Reports g bound m (c.serve g bound m') := by
  obtain ⟨n, hl, hn⟩ := run_leads h
  cases hstatus : m'.state.status with
  | suspended => exact (hserve hstatus).of_leads hl (Nat.le_add_left _ _)
  | terminated =>
    rw [serve_of_ne_suspended (by simp [hstatus])]
    exact (reports_of_terminated hstatus bound).of_leads hl (Nat.le_add_left _ _)
  | running =>
    rw [serve_of_ne_suspended (by simp [hstatus])]
    obtain rfl := hn hstatus
    have hstill : c.Reports g 0 m' (m', .ok ()) := .inr ⟨rfl, by simp [hstatus], rfl⟩
    exact hstill.of_leads hl hbound

theorem serve_reports (fuel : Nat) (hwait : m.state.status = .suspended) : c.Reports g fuel m (c.serve g fuel m) := by
  induction fuel generalizing m with
  | zero => exact .inr ⟨rfl, by simp [serve, hwait], rfl⟩
  | succ fuel ih =>
    unfold serve
    rw [if_neg (by simp [hwait])]
    split
    · rename_i f w hevent
      exact .inl ⟨1, by simp only [Frontend.ending?, Frontend.turn, hwait, hevent]⟩
    · rename_i w hevent
      exact .inl ⟨1, by simp only [Frontend.ending?, Frontend.turn, hwait, hevent]⟩
    · rename_i e w hevent
      rw [Engine.resume_eq (m := ⟨m.state, c.note (eventNote e) w⟩) hwait]
      rcases hresume : g.resume c.toHost 0 e ⟨m.state, c.note (eventNote e) w⟩ with ⟨m₁, t | _⟩
      · exact .inl ⟨1, by simp only [Frontend.ending?, Frontend.turn, hwait, hevent, hresume]⟩
      · have hturn : c.turn g m = (m₁, none) := by simp only [Frontend.turn, hwait, hevent, hresume]
        have hl : c.Leads g 1 m m₁ := .turn hturn (.refl m₁)
        dsimp only
        split
        · rename_i m₂ t hrun
          obtain ⟨n, hn⟩ := run_fails hrun
          exact .inl ⟨1 + n, (hl.ending? n).trans hn⟩
        · rename_i m₂ hrun
          exact (run_reports hrun ih (Nat.le_succ fuel)).of_leads hl (by omega)

theorem runAndServe_reports (c : Frontend σ) (g : Engine) (fuel : Nat) (m : Machine σ) :
    c.Reports g fuel m (c.runAndServe g fuel m) := by
  unfold runAndServe
  split
  · rename_i hrun
    exact .inl (run_fails hrun)
  · rename_i hrun
    exact run_reports hrun (serve_reports fuel) (Nat.le_refl fuel)

end Frontend

end GraphicsBatch
