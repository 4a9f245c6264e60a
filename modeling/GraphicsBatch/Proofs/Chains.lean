import GraphicsBatch.Proofs.Refinement

/-!
# Lines of conditions

A line may start with several conditions. Control comes to what stands behind them if all hold, and to the
next line if one fails; the host can only keep it from coming to either.
-/

namespace GraphicsBatch

def Statement.IsCond (st : Statement) : Prop := ∃ lhs op rhs t, st.action = .cond lhs op rhs t

/-- A condition that holds. -/
def State.Passes (s : State) (st : Statement) : Prop :=
  ∃ lhs op rhs t, st.action = .cond lhs op rhs t ∧ op.holds (s.value lhs) (s.value rhs) = true

/-- A host that does not fail when it looks for events. -/
def Host.Calm {σ : Type} (h : Host σ) : Prop := ∀ w, ∃ reply w', h.call .checkEvents w = (.ok reply, w')

theorem forall_mem_take_succ {α : Type} {P : α → Prop} {xs : List α} {q : Nat} (hq : q < xs.length) :
    (∀ x ∈ xs.take (q + 1), P x) ↔ (∀ x ∈ xs.take q, P x) ∧ P xs[q] := by
  rw [List.take_succ_eq_append_getElem hq, List.forall_mem_append, List.forall_mem_singleton]

namespace State

variable {s s' : State} {st : Statement}

theorem passes_congr (h : s'.vars = s.vars) : s'.Passes st ↔ s.Passes st := by
  have hvalue : s'.value = s.value := by
    funext x
    cases x <;> simp only [State.value, h]
  simp only [Passes, hvalue]

theorem passes_iff {lhs rhs : Operand} {op : Comparison} {t : Nat} (h : st.action = .cond lhs op rhs t) :
    s.Passes st ↔ op.holds (s.value lhs) (s.value rhs) = true := by
  constructor
  · rintro ⟨lhs', op', rhs', t', h', hpass⟩
    rw [h] at h'
    cases h'
    exact hpass
  · exact fun hpass => ⟨lhs, op, rhs, t, h, hpass⟩

end State

namespace Engine

variable {σ : Type} {g : Engine} {h : Host σ} {m : Machine σ} {st : Statement}

/-- The run after a number of steps, whatever they raised. -/
def steps (g : Engine) (h : Host σ) (m : Machine σ) (n : Nat) : Machine σ := g.after h m (List.replicate n .step)

/-- Control comes to `target`. Until then it stays between `lo` and `hi`. -/
def Goes (g : Engine) (h : Host σ) (m : Machine σ) (lo hi target : Nat) : Prop :=
  ∃ n, (g.steps h m n).state.pc = target ∧ (g.steps h m n).state.status = .running ∧
    ∀ i < n, lo ≤ (g.steps h m i).state.pc ∧ (g.steps h m i).state.pc < hi

theorem steps_succ (n : Nat) : g.steps h m (n + 1) = (g.step h (g.steps h m n)).1 := by
  simp only [steps, after, List.replicate_succ', List.foldl_append, List.foldl_cons, List.foldl_nil, apply]

/-! ## One condition -/

theorem entering_value : (g.entering h st m).state.value = m.state.value := by
  funext x
  cases x <;> rfl

theorem step_cond_calm {lhs rhs : Operand} {op : Comparison} {t : Nat} (hcalm : h.Calm)
    (hrun : m.state.status = .running) (hst : g.program.statements[m.state.pc]? = some st)
    (hact : st.action = .cond lhs op rhs t) :
    (g.step h m).1.state =
      { m.state with
        pc := if op.holds (m.state.value lhs) (m.state.value rhs) then m.state.pc + 1 else t
        lastPos := some st.pos } := by
  obtain ⟨reply, w, hcall⟩ := hcalm (g.entering h st m).world
  have hask : h.ask .checkEvents (g.entering h st m).world = (.ok reply, w) := by
    simp only [Host.ask, hcall]
  rw [step_eq_conclude hrun hst]
  simp only [perform, hask, plan, hact, Plan.quiet, Host.askAll, conclude, entering_value]
  cases op.holds (m.state.value lhs) (m.state.value rhs) <;> rfl

theorem step_cond {lhs rhs : Operand} {op : Comparison} {t : Nat}
    (hst : g.program.statements[m.state.pc]? = some st) (hact : st.action = .cond lhs op rhs t) :
    (g.step h m).1.state.vars = m.state.vars ∧
      ((g.step h m).1.state.pc = m.state.pc ∨
        (g.step h m).1.state.pc =
          if op.holds (m.state.value lhs) (m.state.value rhs) then m.state.pc + 1 else t) := by
  by_cases hrun : m.state.status = .running
  · rw [step_eq_conclude hrun hst]
    unfold perform
    rcases h.ask .checkEvents (g.entering h st m).world with ⟨x | reply, w⟩
    · cases x <;> exact ⟨rfl, .inl rfl⟩
    · simp only [plan, hact, Plan.quiet, Host.askAll, conclude, entering_value]
      cases op.holds (m.state.value lhs) (m.state.value rhs) <;> exact ⟨rfl, .inr rfl⟩
  · have hidle : g.step h m = (m, .ok ()) := if_pos hrun
    rw [hidle]
    exact ⟨rfl, .inl rfl⟩

/-! ## A line of them -/

/-- A line that starts with conditions. -/
structure StartsWith (g : Engine) (j : Nat) (conds body : List Statement) : Prop where
  line : g.program.lines[j]? = some (conds ++ body)
  isCond : ∀ st ∈ conds, st.IsCond
  body_ne : body ≠ []

namespace StartsWith

variable {j : Nat} {conds body : List Statement}

theorem statement? (hl : g.StartsWith j conds body) {q : Nat} (hq : q < conds.length) :
    g.byLines.statement? ⟨j, q⟩ = some conds[q] := by
  simp only [LineEngine.statement?, byLines, hl.line, Option.bind_some, List.getElem?_append_left hq,
    List.getElem?_eq_getElem hq]

theorem start_succ (wf : g.program.WellFormed) (hl : g.StartsWith j conds body) :
    g.program.start j + conds.length < g.program.start (j + 1) := by
  have hbody : 0 < body.length := List.length_pos_iff.mpr hl.body_ne
  have hst : g.byLines.statement? ⟨j, conds.length⟩ = some body[0] := by
    simp only [LineEngine.statement?, byLines, hl.line, Option.bind_some,
      List.getElem?_append_right (Nat.le_refl conds.length), Nat.sub_self, List.getElem?_eq_getElem hbody]
  obtain ⟨r, hr, hlt, -⟩ := statement?_eq_some_iff.mp hst
  rw [start_eq hr, Engine.start_succ wf hr]
  exact hlt

theorem getElem?_cond (wf : g.program.WellFormed) (hl : g.StartsWith j conds body) {q : Nat} (hq : q < conds.length) :
    g.program.statements[g.program.start j + q]? = some conds[q] ∧
      ∃ lhs op rhs, conds[q].action = .cond lhs op rhs (g.program.start (j + 1)) := by
  have hst := hl.statement? hq
  obtain ⟨lhs, op, rhs, t, hact⟩ := hl.isCond _ (List.getElem_mem hq)
  have hskip := index_nextLine (l := { place := ⟨j, q⟩ }) wf hst hact
  refine ⟨getElem?_index hst, lhs, op, rhs, ?_⟩
  rw [hact, ← hskip]
  rfl

/-- While control is among the conditions, those behind it have passed. -/
theorem steps_cases (wf : g.program.WellFormed) (hl : g.StartsWith j conds body)
    (hpc : m.state.pc = g.program.start j) (n : Nat)
    (hin : ∀ i < n, g.program.start j ≤ (g.steps h m i).state.pc ∧
      (g.steps h m i).state.pc < g.program.start j + conds.length) :
    (g.steps h m n).state.vars = m.state.vars ∧
      ((∃ q ≤ conds.length, (g.steps h m n).state.pc = g.program.start j + q ∧ ∀ st ∈ conds.take q, m.state.Passes st) ∨
        ((g.steps h m n).state.pc = g.program.start (j + 1) ∧ ∃ st ∈ conds, ¬ m.state.Passes st)) := by
  induction n with
  | zero => exact ⟨rfl, .inl ⟨0, Nat.zero_le _, hpc, by simp⟩⟩
  | succ n ih =>
    obtain ⟨hvars, hcases⟩ := ih fun i hi => hin i (by omega)
    have hlast := hin n (Nat.lt_succ_self n)
    have hend := hl.start_succ wf
    -- The chain had not been left before this step, so the step was at the condition `q`.
    rcases hcases with ⟨q, -, hat, hpassed⟩ | ⟨hat, -⟩
    · have hq : q < conds.length := by omega
      obtain ⟨hst, lhs, op, rhs, hact⟩ := hl.getElem?_cond wf hq
      rw [← hat] at hst
      obtain ⟨hvars', hpc'⟩ := step_cond (h := h) hst hact
      rw [steps_succ]
      refine ⟨hvars'.trans hvars, ?_⟩
      have hiff : m.state.Passes conds[q] ↔
          op.holds ((g.steps h m n).state.value lhs) ((g.steps h m n).state.value rhs) = true := by
        rw [← State.passes_congr hvars, State.passes_iff hact]
      -- The host may have stopped the step; otherwise it went on, or to the next line.
      rcases hpc' with hpc' | hpc'
      · exact .inl ⟨q, Nat.le_of_lt hq, hpc'.trans hat, hpassed⟩
      · by_cases hpass : m.state.Passes conds[q]
        · rw [if_pos (hiff.mp hpass), hat] at hpc'
          exact .inl ⟨q + 1, hq, hpc', (forall_mem_take_succ hq).mpr ⟨hpassed, hpass⟩⟩
        · rw [if_neg (mt hiff.mpr hpass)] at hpc'
          exact .inr ⟨hpc', conds[q], List.getElem_mem hq, hpass⟩
    · omega

theorem steps_calm (wf : g.program.WellFormed) (hl : g.StartsWith j conds body) (hcalm : h.Calm)
    (hrun : m.state.status = .running) (hpc : m.state.pc = g.program.start j) {q : Nat} (hq : q ≤ conds.length)
    (hpassed : ∀ st ∈ conds.take q, m.state.Passes st) :
    (g.steps h m q).state.vars = m.state.vars ∧ (g.steps h m q).state.status = .running ∧
      (g.steps h m q).state.pc = g.program.start j + q := by
  induction q with
  | zero => exact ⟨rfl, hrun, hpc⟩
  | succ q ih =>
    obtain ⟨hbefore, hlast⟩ := (forall_mem_take_succ hq).mp hpassed
    obtain ⟨hvars, hrun', hat⟩ := ih (Nat.le_of_lt hq) hbefore
    obtain ⟨hst, lhs, op, rhs, hact⟩ := hl.getElem?_cond wf hq
    have hpass : (g.steps h m q).state.Passes conds[q] := (State.passes_congr hvars).mpr hlast
    rw [← hat] at hst
    rw [steps_succ, step_cond_calm hcalm hrun' hst hact]
    refine ⟨hvars, hrun', ?_⟩
    simp only [if_pos ((State.passes_iff hact).mp hpass), hat]
    rfl

theorem steps_fail (wf : g.program.WellFormed) (hl : g.StartsWith j conds body) (hcalm : h.Calm)
    (hrun : m.state.status = .running) (hpc : m.state.pc = g.program.start j) {q : Nat} (hq : q < conds.length)
    (hpassed : ∀ st ∈ conds.take q, m.state.Passes st) (hfail : ¬ m.state.Passes conds[q]) :
    (g.steps h m (q + 1)).state.status = .running ∧ (g.steps h m (q + 1)).state.pc = g.program.start (j + 1) := by
  obtain ⟨hvars, hrun', hat⟩ := hl.steps_calm wf hcalm hrun hpc (Nat.le_of_lt hq) hpassed
  obtain ⟨hst, lhs, op, rhs, hact⟩ := hl.getElem?_cond wf hq
  rw [← State.passes_congr hvars, State.passes_iff hact] at hfail
  rw [← hat] at hst
  rw [steps_succ, step_cond_calm hcalm hrun' hst hact]
  exact ⟨hrun', if_neg hfail⟩

/-! ### Where the line leads -/

theorem passes_of_goes (wf : g.program.WellFormed) (hl : g.StartsWith j conds body)
    (hpc : m.state.pc = g.program.start j)
    (hgoes : g.Goes h m (g.program.start j) (g.program.start j + conds.length) (g.program.start j + conds.length)) :
    ∀ st ∈ conds, m.state.Passes st := by
  obtain ⟨n, hat, -, hin⟩ := hgoes
  have hend := hl.start_succ wf
  obtain ⟨-, ⟨q, hq, hat', hpassed⟩ | ⟨hat', -⟩⟩ := hl.steps_cases wf hpc n hin
  · have hall : q = conds.length := by omega
    rwa [hall, List.take_length] at hpassed
  · omega

theorem fails_of_goes (wf : g.program.WellFormed) (hl : g.StartsWith j conds body)
    (hpc : m.state.pc = g.program.start j)
    (hgoes : g.Goes h m (g.program.start j) (g.program.start j + conds.length) (g.program.start (j + 1))) :
    ¬ ∀ st ∈ conds, m.state.Passes st := by
  obtain ⟨n, hat, -, hin⟩ := hgoes
  have hend := hl.start_succ wf
  obtain ⟨-, ⟨q, hq, hat', -⟩ | ⟨-, st, hmem, hfail⟩⟩ := hl.steps_cases wf hpc n hin
  · omega
  · exact fun hall => hfail (hall st hmem)

theorem goes_iff_passes (wf : g.program.WellFormed) (hl : g.StartsWith j conds body) (hcalm : h.Calm)
    (hrun : m.state.status = .running) (hpc : m.state.pc = g.program.start j) :
    g.Goes h m (g.program.start j) (g.program.start j + conds.length) (g.program.start j + conds.length) ↔
      ∀ st ∈ conds, m.state.Passes st := by
  refine ⟨hl.passes_of_goes wf hpc, fun hall => ?_⟩
  have hpassed : ∀ q, ∀ st ∈ conds.take q, m.state.Passes st := fun q st hmem => hall st (List.mem_of_mem_take hmem)
  obtain ⟨-, hrun', hat⟩ := hl.steps_calm wf hcalm hrun hpc (Nat.le_refl _) (hpassed _)
  refine ⟨conds.length, hat, hrun', fun i hi => ?_⟩
  have := (hl.steps_calm wf hcalm hrun hpc (Nat.le_of_lt hi) (hpassed i)).2.2
  omega

theorem goes_of_first_failure (wf : g.program.WellFormed) (hl : g.StartsWith j conds body) (hcalm : h.Calm)
    (hrun : m.state.status = .running) (hpc : m.state.pc = g.program.start j) {q : Nat} (hq : q < conds.length)
    (hpassed : ∀ st ∈ conds.take q, m.state.Passes st) (hfail : ¬ m.state.Passes conds[q]) :
    g.Goes h m (g.program.start j) (g.program.start j + conds.length) (g.program.start (j + 1)) := by
  obtain ⟨hrun', hat⟩ := hl.steps_fail wf hcalm hrun hpc hq hpassed hfail
  refine ⟨q + 1, hat, hrun', fun i hi => ?_⟩
  have hpassed' : ∀ st ∈ conds.take i, m.state.Passes st :=
    fun st hmem => hpassed st (List.take_subset_take_left conds (Nat.le_of_lt_succ hi) hmem)
  have := (hl.steps_calm wf hcalm hrun hpc (by omega) hpassed').2.2
  omega

theorem goes_iff_fails (wf : g.program.WellFormed) (hl : g.StartsWith j conds body) (hcalm : h.Calm)
    (hrun : m.state.status = .running) (hpc : m.state.pc = g.program.start j) :
    g.Goes h m (g.program.start j) (g.program.start j + conds.length) (g.program.start (j + 1)) ↔
      ¬ ∀ st ∈ conds, m.state.Passes st := by
  refine ⟨hl.fails_of_goes wf hpc, fun hnot => ?_⟩
  by_contra hstay
  -- As long as the next line is not reached, one more condition has passed.
  have hpassed : ∀ q ≤ conds.length, ∀ st ∈ conds.take q, m.state.Passes st := by
    intro q
    induction q with
    | zero => simp
    | succ q ih =>
      intro hq
      have hbefore := ih (Nat.le_of_lt hq)
      refine (forall_mem_take_succ hq).mpr ⟨hbefore, ?_⟩
      by_contra hfail
      exact hstay (hl.goes_of_first_failure wf hcalm hrun hpc hq hbefore hfail)
  have hall := hpassed conds.length (Nat.le_refl _)
  rw [List.take_length] at hall
  exact hnot hall

end StartsWith

/-! ## Programs that were read -/

/-- The engine and the machine on lines are at the same place, with the same calls open, the same memory and
the same world. -/
structure Aligned (g : Engine) (m : Machine σ) (l : LineMachine σ) : Prop where
  place : g.byLines.Within l.state.place
  pc_eq : m.state.pc = g.program.start l.state.place.line + l.state.place.offset
  calls : ∀ pt ∈ l.state.calls, g.byLines.Within pt
  frames_eq : m.state.callStack.frames = l.state.calls.map fun pt => g.program.start pt.line + pt.offset
  memory_eq : m.state.memory = l.state.memory
  world_eq : m.world = l.world

theorem aligned_flat {l : LineMachine σ} (hp : g.byLines.Placed l.state) : g.Aligned (l.flat g.program) l :=
  ⟨hp.place, rfl, hp.calls, rfl, rfl, rfl⟩

/-- The engine carries out the lines of a program, and a chain of conditions guards what stands behind it. -/
theorem after_aligned_of_parse {source : String} {pedantic : Bool}
    (hparse : Program.parse source pedantic = .ok g.program) (h : Host σ) (w : σ) :
    (∀ ops : List Op, g.Aligned (g.after h ⟨{}, w⟩ ops) (g.byLines.after h ⟨{}, w⟩ ops) ∧
      ∀ op, (g.apply h (g.after h ⟨{}, w⟩ ops) op).2 = (g.byLines.apply h (g.byLines.after h ⟨{}, w⟩ ops) op).2) ∧
    ∀ (m : Machine σ) (j : Nat) (conds body : List Statement), g.StartsWith j conds body →
      m.state.pc = g.program.start j →
      (g.Goes h m (g.program.start j) (g.program.start j + conds.length) (g.program.start j + conds.length) →
        ∀ st ∈ conds, m.state.Passes st) ∧
      (h.Calm → m.state.status = .running →
        (g.Goes h m (g.program.start j) (g.program.start j + conds.length) (g.program.start j + conds.length) ↔
          ∀ st ∈ conds, m.state.Passes st) ∧
        (g.Goes h m (g.program.start j) (g.program.start j + conds.length) (g.program.start (j + 1)) ↔
          ¬ ∀ st ∈ conds, m.state.Passes st)) := by
  obtain ⟨lines, hl, heq⟩ := Program.parse_eq_ofLines hparse
  have wf : g.program.WellFormed := heq ▸ Program.ofLines_wellFormed hl
  constructor
  · intro ops
    have hinit : (⟨{}, w⟩ : Machine σ) = LineMachine.flat g.program ⟨{}, w⟩ := by
      rw [LineMachine.flat, flat_init wf]
    obtain ⟨hafter, hplaced⟩ := after_flat (m := ⟨{}, w⟩) (h := h) wf ops (placed_init wf)
    rw [hinit, hafter]
    refine ⟨aligned_flat hplaced, fun op => ?_⟩
    rw [apply_flat wf hplaced op]
    rfl
  · intro m j conds body hstarts hpc
    refine ⟨hstarts.passes_of_goes wf hpc, fun hcalm hrun => ?_⟩
    exact ⟨hstarts.goes_iff_passes wf hcalm hrun hpc, hstarts.goes_iff_fails wf hcalm hrun hpc⟩

def sampleConds : List Statement :=
  [⟨.cond (.var "a") .lt (.literal 1) 4, ⟨1, 1⟩⟩, ⟨.cond (.var "b") .eq (.literal 2) 4, ⟨1, 13⟩⟩]

def sampleBody : List Statement := [⟨.assign "c" ⟨.literal 5, none⟩, ⟨1, 25⟩⟩, ⟨.gosub "sub", ⟨1, 33⟩⟩]

theorem after_aligned_of_parse_chain : ∃ p,
    Program.parse "If a<1 Then If b=2 Then Set c=5 Gosub sub\nEnd\nSub: WaitInput(c) Return" false = .ok p ∧
      StartsWith ⟨p, 3, true⟩ 0 sampleConds sampleBody ∧
      Aligned ⟨p, 3, true⟩
        (after ⟨p, 3, true⟩ (.silent fun _ w => w) ⟨{}, ()⟩ [.assign "b" 2, .run 9, .resume 2 ⟨.timeout, []⟩ rfl])
        (LineEngine.after ⟨p.lines, 3, true⟩ (.silent fun _ w => w) ⟨{}, ()⟩
          [.assign "b" 2, .run 9, .resume 2 ⟨.timeout, []⟩ rfl]) ∧
      Goes ⟨p, 3, true⟩ (.silent fun _ w => w) ⟨({} : State).set "b" 2, ()⟩ 0 2 2 ∧
      Goes ⟨p, 3, true⟩ (.silent fun _ w => w) ⟨{}, ()⟩ 0 2 4 := by
  have hlayout : (Program.parse "If a<1 Then If b=2 Then Set c=5 Gosub sub\nEnd\nSub: WaitInput(c) Return"
      false).toOption.map (fun p => (p.lines[0]?, p.start 0, p.start 1)) =
      some (some (sampleConds ++ sampleBody), 0, 4) := by decide +kernel
  cases hparse : Program.parse "If a<1 Then If b=2 Then Set c=5 Gosub sub\nEnd\nSub: WaitInput(c) Return" false with
  | error e =>
    rw [hparse] at hlayout
    cases hlayout
  | ok p =>
    rw [hparse] at hlayout
    obtain ⟨hline, hstart⟩ := Prod.mk.inj (Option.some.inj hlayout)
    obtain ⟨hzero, hone⟩ := Prod.mk.inj hstart
    have hcond : ∀ st ∈ sampleConds, st.IsCond := by
      simp [sampleConds, Statement.IsCond]
    have hstarts : StartsWith ⟨p, 3, true⟩ 0 sampleConds sampleBody := ⟨hline, hcond, by simp [sampleBody]⟩
    have hcalm : (Host.silent fun _ (w : Unit) => w).Calm := fun w => ⟨.none, w, rfl⟩
    obtain ⟨haligned, hchain⟩ :=
      after_aligned_of_parse (g := ⟨p, 3, true⟩) hparse (Host.silent fun _ (w : Unit) => w) ()
    have hpass := ((hchain ⟨({} : State).set "b" 2, ()⟩ 0 _ _ hstarts hzero.symm).2 hcalm rfl).1
    have hfail := ((hchain ⟨{}, ()⟩ 0 _ _ hstarts hzero.symm).2 hcalm rfl).2
    simp only [hzero, hone] at hpass hfail
    refine ⟨p, rfl, hstarts, (haligned _).1, hpass.mpr ?_, hfail.mpr ?_⟩
    · refine List.forall_mem_cons.mpr ⟨(State.passes_iff rfl).mpr (by decide), ?_⟩
      exact List.forall_mem_singleton.mpr ((State.passes_iff rfl).mpr (by decide))
    · intro hall
      have hsecond := hall _ (List.mem_cons_of_mem _ List.mem_cons_self)
      exact absurd ((State.passes_iff rfl).mp hsecond) (by decide)

end Engine

end GraphicsBatch
