import GraphicsBatch.Proofs.Moments

/-!
# Calls and returns

Only `Gosub` and `Return` touch the open calls, one at a time. So a call stays open under whatever is called from it,
and when it is closed control is behind it, however the subroutine was left and entered again in between.
-/

namespace GraphicsBatch

namespace Engine

variable {σ : Type} {g : Engine} {h : Host σ} {m m' : Machine σ} {op : Op}

/-! ## One operation -/

/-- A single operation leaves the open calls alone, or is a call, or a return. -/
theorem apply_calls (hop : op.isSingle = true) (hm' : m' = (g.apply h m op).1) :
    m'.state.callStack = m.state.callStack ∨ op = .step ∧
      ((∃ st l, g.CarriesOut h st m m' ∧ st.action = .gosub l ∧
          m'.state.callStack = m.state.callStack.push (m.state.pc + 1)) ∨
        ∃ st, g.CarriesOut h st m m' ∧ st.action = .back ∧
          m.state.callStack.frames = m'.state.pc :: m'.state.callStack.frames) := by
  subst hm'
  cases op with
  | step =>
    rcases step_cases g h m with ⟨st, m₁, hc⟩ | hstands
    · simp only [apply, hc.step_eq, true_and]
      have hcontrol := hc.control
      generalize hact : st.action = a at hcontrol
      cases hcontrol with
      | on hcalls _ | stop hcalls _ | goto hcalls _ | skip hcalls => exact .inl hcalls
      | gosub hcalls _ => exact .inr (.inl ⟨st, _, hc, hact, hcalls⟩)
      | back hframes => exact .inr (.inr ⟨st, hc, hact, hframes⟩)
    · exact .inl hstands.callStack
  | assign name value => exact .inl rfl
  | run fuel => cases hop
  | resume fuel e =>
    cases fuel with
    | zero => exact .inl (resume_callStack e)
    | succ fuel => cases hop

theorem apply_suffix {t : Nat} {frames : List Nat} (hop : op.isSingle = true)
    (hopen : t :: frames <:+ m.state.callStack.frames) :
    t :: frames <:+ (g.apply h m op).1.state.callStack.frames ∨
      (g.apply h m op).1.state.callStack.frames = frames ∧ (g.apply h m op).1.state.pc = t := by
  rcases apply_calls (g := g) (h := h) (m := m) hop rfl with heq | ⟨-, ⟨st, l, -, -, heq⟩ | ⟨st, -, -, heq⟩⟩
  · left
    rw [heq]
    exact hopen
  · left
    rw [heq]
    exact hopen.trans (List.suffix_cons _ _)
  · rw [heq] at hopen
    rcases List.suffix_cons_iff.mp hopen with hlast | hinner
    · obtain ⟨hpc, hframes⟩ := List.cons.inj hlast
      exact .inr ⟨hframes.symm, hpc.symm⟩
    · exact .inl hinner

theorem CarriesOut.callStack_of_gosub {st : Statement} {l : String} (hc : g.CarriesOut h st m m')
    (hact : st.action = .gosub l) : m'.state.callStack = m.state.callStack.push (m.state.pc + 1) := by
  obtain ⟨pl, reply, hpl, hreply⟩ := hc.planned
  rw [hact] at hpl
  cases hpl
  rw [← Except.ok.inj hreply]
  rfl

/-! ## Whole runs -/

theorem after_suffix {t : Nat} {frames : List Nat} {ops : List Op} (hops : ∀ op ∈ ops, op.isSingle = true)
    (hopen : t :: frames <:+ m.state.callStack.frames)
    (hdeep : ∀ k < ops.length, (g.after h m (ops.take k)).state.callStack.depth ≠ frames.length) :
    t :: frames <:+ (g.after h m ops).state.callStack.frames ∨
      (g.after h m ops).state.callStack.frames = frames ∧ (g.after h m ops).state.pc = t := by
  induction ops generalizing m with
  | nil => exact .inl hopen
  | cons op ops ih =>
    obtain ⟨hop, hops⟩ := List.forall_mem_cons.mp hops
    rcases apply_suffix (g := g) (h := h) hop hopen with hopen' | ⟨hframes, hpc⟩
    · refine ih hops hopen' fun k hk => ?_
      exact hdeep (k + 1) (by simpa using hk)
    · -- The call has just been closed, so nothing may come after this.
      cases ops with
      | nil => exact .inr ⟨hframes, hpc⟩
      | cons op' ops =>
        have hdepth := hdeep 1 (by simp)
        rw [CallStack.depth_eq] at hdepth
        exact absurd (congrArg List.length hframes) hdepth

/-- Calls and returns are well bracketed: when the depth of a call is first met again, control is behind it. -/
theorem calls_wellBracketed (g : Engine) (h : Host σ) :
    (∀ (m m₁ : Machine σ) (st : Statement) (l : String) (later : List Op), g.CarriesOut h st m m₁ →
      st.action = .gosub l → (∀ op ∈ later, op.isSingle = true) →
      (∀ k < later.length, (g.after h m₁ (later.take k)).state.callStack.depth ≠ m.state.callStack.depth) →
      (g.after h m₁ later).state.callStack.depth = m.state.callStack.depth →
      (g.after h m₁ later).state.callStack = m.state.callStack ∧ (g.after h m₁ later).state.pc = m.state.pc + 1) ∧
    (∀ (m : Machine σ) (op : Op), op.isSingle = true →
      let m' := (g.apply h m op).1
      (m.state.callStack.depth < m'.state.callStack.depth → op = .step ∧
        (∃ st l, g.CarriesOut h st m m' ∧ st.action = .gosub l) ∧
        m'.state.callStack.depth = m.state.callStack.depth + 1) ∧
      (m'.state.callStack.depth < m.state.callStack.depth → op = .step ∧
        (∃ st, g.CarriesOut h st m m' ∧ st.action = .back) ∧
        m.state.callStack.depth = m'.state.callStack.depth + 1)) ∧
    ∀ (m : Machine σ) (ops : List Op), ∃ moments, Moments ops moments ∧ (∀ op ∈ moments, op.isSingle = true) ∧
      g.after h m moments = g.after h m ops := by
  refine ⟨?_, ?_, fun m ops => ?_⟩
  · intro m m₁ st l later hc hact hlater hdeep hdepth
    have hopen : (m.state.pc + 1) :: m.state.callStack.frames <:+ m₁.state.callStack.frames := by
      rw [hc.callStack_of_gosub hact]
      exact List.suffix_rfl
    rw [CallStack.depth_eq m.state.callStack] at hdeep hdepth
    rcases after_suffix hlater hopen hdeep with hsuffix | ⟨hframes, hpc⟩
    · have hle := hsuffix.length_le
      rw [← CallStack.depth_eq, hdepth, List.length_cons] at hle
      omega
    · exact ⟨CallStack.eq_of_frames hframes, hpc⟩
  · intro m op hop m'
    have hm := m.state.callStack.depth_eq
    have hm' := m'.state.callStack.depth_eq
    rcases apply_calls (g := g) (h := h) (m := m) hop rfl with
      heq | ⟨hstep, ⟨st, l, hc, hact, heq⟩ | ⟨st, hc, hact, heq⟩⟩
    · rw [heq]
      omega
    · have hgrown : m'.state.callStack.depth = m.state.callStack.depth + 1 := by rw [heq]; rfl
      exact ⟨fun _ => ⟨hstep, ⟨st, l, hc, hact⟩, hgrown⟩, fun hlt => by omega⟩
    · have hshrunk : m.state.callStack.depth = m'.state.callStack.depth + 1 := by
        rw [hm, hm', heq, List.length_cons]
      exact ⟨fun hlt => by omega, fun _ => ⟨hstep, ⟨st, hc, hact⟩, hshrunk⟩⟩
  · obtain ⟨moments, hmoments, heq⟩ := after_moments ops
    exact ⟨moments, hmoments, hmoments.isSingle, heq⟩

def leavingSource : String :=
  "SetKeyboard(13,key)\nGosub sub Set a=1\nEnd\nSub: WaitInput()\nReturn\nKey: Gosub inner Return\nInner: Return"

/-- A key leads out of the subroutine that waits for it. -/
def leavingOps : List Op := [.step, .resume 0 ⟨.keyDown, [.int 13]⟩ rfl, .assign "a" 5, .step, .step, .step]

def leavingCall : Statement := ⟨.gosub "sub", ⟨2, 1⟩⟩

theorem calls_wellBracketed_leaving : ∃ p m m₁, Program.parse leavingSource false = .ok p ∧
    CarriesOut ⟨p, 9, false⟩ (.silent fun _ w => w) leavingCall m m₁ ∧
    m = after ⟨p, 9, false⟩ (.silent fun _ w => w) ⟨{}, ()⟩ [.step] ∧
    (after ⟨p, 9, false⟩ (.silent fun _ w => w) m₁ leavingOps).state.callStack = m.state.callStack ∧
    (after ⟨p, 9, false⟩ (.silent fun _ w => w) m₁ leavingOps).state.pc = m.state.pc + 1 := by
  have hsome : (Program.parse leavingSource false).toOption.map (fun p =>
      let g : Engine := ⟨p, 9, false⟩
      let h : Host Unit := .silent fun _ w => w
      let m := g.after h ⟨{}, ()⟩ [.step]
      let r := g.perform h leavingCall (g.entering h leavingCall m)
      decide (m.state.status = .running ∧ p.statements[m.state.pc]? = some leavingCall ∧ r.2 = none ∧
        (∀ k < leavingOps.length, (g.after h r.1 (leavingOps.take k)).state.callStack.depth ≠ m.state.callStack.depth) ∧
        (g.after h r.1 leavingOps).state.callStack.depth = m.state.callStack.depth)) = some true := by decide +kernel
  obtain ⟨p, hparse, heq⟩ := Except.exists_of_map_toOption hsome
  obtain ⟨hrun, hst, hdone, hdeep, hdepth⟩ := of_decide_eq_true heq
  have hsingle : ∀ op ∈ leavingOps, op.isSingle = true := by simp [leavingOps, Op.isSingle]
  generalize hm : after ⟨p, 9, false⟩ (.silent fun _ w => w) ⟨{}, ()⟩ [.step] = m at hrun hst hdone hdeep hdepth
  generalize hr : perform _ _ _ _ = r at hdone hdeep hdepth
  obtain ⟨m₁, halt⟩ := r
  obtain rfl : halt = none := hdone
  exact ⟨p, m, m₁, hparse, ⟨hrun, hst, hr⟩, hm.symm,
    (calls_wellBracketed _ _).1 m m₁ leavingCall "sub" leavingOps ⟨hrun, hst, hr⟩ rfl hsingle hdeep hdepth⟩

end Engine

end GraphicsBatch
