import GraphicsBatch.Proofs.Reachable
import GraphicsBatch.Session

/-!
# Runs seen through a map of hosts

One host may be part of another, or keep less than another does. If a map between their states goes along with all that
they are asked and told, then it goes along with whole runs.
-/

namespace GraphicsBatch

variable {σ τ : Type}

/-- What one host does is seen in the other. -/
structure Host.Maps (f : σ → τ) (h : Host σ) (k : Host τ) : Prop where
  call (r : Request) (w : σ) : k.call r (f w) = ((h.call r w).1, f (h.call r w).2)
  note (r : Record) (w : σ) : k.note r (f w) = f (h.note r w)

def Machine.map (f : σ → τ) (m : Machine σ) : Machine τ := ⟨m.state, f m.world⟩

@[simp] theorem Machine.map_state (f : σ → τ) (m : Machine σ) : (m.map f).state = m.state := rfl

namespace Host.Maps

variable {f : σ → τ} {h : Host σ} {k : Host τ} (hf : Maps f h k)

include hf

theorem ask (r : Request) (w : σ) : k.ask r (f w) = ((h.ask r w).1, f (h.ask r w).2) := by
  unfold Host.ask
  rw [hf.call]
  rcases h.call r w with ⟨_ | _, w'⟩ <;> rfl

theorem askAll (rs : List Request) (w : σ) : k.askAll rs (f w) = ((h.askAll rs w).1, f (h.askAll rs w).2) := by
  induction rs generalizing w with
  | nil => rfl
  | cons r rs ih =>
    unfold Host.askAll
    rw [hf.ask]
    rcases h.ask r w with ⟨_ | reply, w'⟩
    · rfl
    · simp only [ih]
      rcases h.askAll rs w' with ⟨_ | _, w''⟩ <;> rfl

variable (g : Engine) (m : Machine σ)

theorem perform (st : Statement) :
    g.perform k st (m.map f) = ((g.perform h st m).1.map f, (g.perform h st m).2) := by
  unfold Engine.perform
  simp only [Machine.map, hf.ask]
  rcases h.ask .checkEvents m.world with ⟨_ | _, w⟩
  · rfl
  · cases plan g.program g.maxStack m.state st with
    | error e => rfl
    | ok pl =>
      simp only [hf.askAll]
      rcases h.askAll pl.requests w with ⟨_ | reply, w'⟩
      · rfl
      · simp only
        cases pl.complete reply <;> rfl

theorem entering (st : Statement) : g.entering k st (m.map f) = (g.entering h st m).map f := by
  unfold Engine.entering Machine.map
  split
  · simp only [hf.note]
  · rfl

theorem conclude (pos : Position) (r : Machine σ × Option Halt) :
    Engine.conclude k pos (r.1.map f, r.2) = ((Engine.conclude h pos r).1.map f, (Engine.conclude h pos r).2) := by
  rcases r with ⟨m, _ | _ | _ | _ | _⟩
  case some.exit => simp only [Engine.conclude, Machine.map, hf.note]
  all_goals rfl

theorem step : g.step k (m.map f) = ((g.step h m).1.map f, (g.step h m).2) := by
  by_cases hrun : m.state.status = .running
  · cases hst : g.program.statements[m.state.pc]? with
    | none => simp only [Engine.step, hrun, hst, Machine.map, ne_eq, not_true, if_false]
    | some st =>
      rw [Engine.step_eq_conclude hrun hst, Engine.step_eq_conclude (m := m.map f) hrun hst, hf.entering, hf.perform,
        hf.conclude]
  · simp only [Engine.step, Machine.map, ne_eq, hrun, not_false_eq_true, if_true]

theorem run (fuel : Nat) : g.run k fuel (m.map f) = ((g.run h fuel m).1.map f, (g.run h fuel m).2) := by
  induction fuel generalizing m with
  | zero => rfl
  | succ fuel ih =>
    unfold Engine.run
    rw [hf.step, Machine.map_state]
    split
    · rfl
    · rcases g.step h m with ⟨m', _ | _⟩
      · rfl
      · exact ih m'

theorem resume (fuel : Nat) (e : Event) :
    g.resume k fuel e (m.map f) = ((g.resume h fuel e m).1.map f, (g.resume h fuel e m).2) := by
  unfold Engine.resume
  rw [Machine.map_state]
  split
  · rfl
  · cases e.read with
    | unknown => simp only [Machine.map, hf.note]
    | misfit => rfl
    | input i =>
      cases i with
      | quit => simp only [Machine.map, hf.note]
      | _ =>
        simp only
        split
        · exact hf.run g ⟨_, m.world⟩ fuel
        · rfl
        · rfl

theorem after (ops : List Op) : g.after k (m.map f) ops = (g.after h m ops).map f := by
  induction ops generalizing m with
  | nil => rfl
  | cons op ops ih =>
    have happly : (g.apply k (m.map f) op).1 = (g.apply h m op).1.map f := by
      cases op with
      | step => exact congrArg (·.1) (hf.step g m)
      | run fuel => exact congrArg (·.1) (hf.run g m fuel)
      | resume fuel e => exact congrArg (·.1) (hf.resume g m fuel e)
      | assign name value => rfl
    unfold Engine.after
    rw [List.foldl_cons, List.foldl_cons, happly]
    exact ih _

end Host.Maps

/-! ## Frontends -/

structure Frontend.Maps (f : σ → τ) (c : Frontend σ) (d : Frontend τ) : Prop extends Host.Maps f c.toHost d.toHost where
  waitEvent (w : σ) : d.waitEvent (f w) = ((c.waitEvent w).1, f (c.waitEvent w).2)
  close (w : σ) : d.close (f w) = f (c.close w)

section

variable {f : σ → τ} {c : Frontend σ} {d : Frontend τ} (hf : c.Maps f d) (g : Engine) (fuel : Nat) (m : Machine σ)

include hf

theorem Frontend.Maps.serve : d.serve g fuel (m.map f) = ((c.serve g fuel m).1.map f, (c.serve g fuel m).2) := by
  induction fuel generalizing m with
  | zero => rfl
  | succ fuel ih =>
    unfold Frontend.serve
    rw [Machine.map_state]
    split
    · rfl
    · simp only [Machine.map, hf.waitEvent]
      rcases c.waitEvent m.world with ⟨_ | _ | e, w⟩
      · rfl
      · rfl
      · simp only [hf.note]
        have hresume := hf.resume g ⟨m.state, c.note (Frontend.eventNote e) w⟩ (fuel + 1) e
        simp only [Machine.map] at hresume
        rw [hresume]
        rcases g.resume c.toHost (fuel + 1) e ⟨m.state, c.note (Frontend.eventNote e) w⟩ with ⟨m', _ | _⟩
        · rfl
        · exact ih m'

theorem Frontend.Maps.runAndServe :
    d.runAndServe g fuel (m.map f) = ((c.runAndServe g fuel m).1.map f, (c.runAndServe g fuel m).2) := by
  unfold Frontend.runAndServe
  rw [hf.run]
  rcases g.run c.toHost fuel m with ⟨m', _ | _⟩
  · rfl
  · exact hf.serve g fuel m'

theorem Session.pump_map (s : Session) (w : σ) :
    s.pump d fuel (f w) = ((s.pump c fuel w).1, (s.pump c fuel w).2.1, f (s.pump c fuel w).2.2) := by
  obtain ⟨pedantic, maxStack, trace, program, state⟩ := s
  unfold pump withRun
  cases program with
  | none => simp only [hf.close]
  | some p =>
    cases state with
    | none => simp only [hf.close]
    | some state =>
      have hserve := hf.runAndServe ⟨p, maxStack, trace⟩ fuel ⟨state, w⟩
      simp only [Machine.map] at hserve
      simp only [hserve]
      rcases c.runAndServe ⟨p, maxStack, trace⟩ fuel ⟨state, w⟩ with ⟨m', _ | _⟩ <;> simp only [hf.close]

end

end GraphicsBatch
