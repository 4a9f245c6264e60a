import GraphicsBatch.Proofs.Moments
import GraphicsBatch.Proofs.Refusals

/-!
# Arithmetic of 64 bits

Variables have 64 bits as long as what comes from outside has: a `Set` stores the exact result of its operation or ends
the run. Quotients are described by their remainder, not by the way they are found.
-/

namespace GraphicsBatch

/-! ## Exact results -/

/-- What an operation results in. A quotient leaves a remainder that is smaller than the divisor and has the sign of the
dividend. -/
def Operator.Results : Operator → Int → Int → Int → Prop
  | .plus, a, b, n => n = a + b
  | .minus, a, b, n => n = a - b
  | .times, a, b, n => n = a * b
  | .divide, a, b, q => ∃ r : Int, a = q * b + r ∧ r.natAbs < b.natAbs ∧ (r = 0 ∨ r.sign = a.sign)

theorem eq_tdiv_of_remainder {a b q r : Int} (ha : a = q * b + r) (hr : r.natAbs < b.natAbs)
    (hsign : r = 0 ∨ r.sign = a.sign) : a.tdiv b = q := by
  have hb : b ≠ 0 := by omega
  have hsum : r + b * q = a := by rw [ha, Int.mul_comm, Int.add_comm]
  rcases Int.le_total 0 a with hpos | hneg
  · have hr0 : 0 ≤ r := by
      rcases hsign with rfl | hsign
      · exact Int.le_refl 0
      · rwa [← Int.sign_nonneg_iff, hsign, Int.sign_nonneg_iff]
    exact ((Int.tdiv_tmod_unique hpos hb).mpr ⟨hsum, hr0, by omega⟩).1
  · have hr0 : r ≤ 0 := by
      rcases hsign with rfl | hsign
      · exact Int.le_refl 0
      · rwa [← Int.sign_nonpos_iff, hsign, Int.sign_nonpos_iff]
    exact ((Int.tdiv_tmod_unique' hneg hb).mpr ⟨hsum, by omega, hr0⟩).1

theorem tdiv_remainder {a b : Int} (hb : b ≠ 0) : Operator.divide.Results a b (a.tdiv b) := by
  refine ⟨a.tmod b, (Int.tdiv_mul_add_tmod a b).symm, ?_, ?_⟩
  · rw [Int.natAbs_tmod]
    exact Nat.mod_lt _ (Int.natAbs_pos.mpr hb)
  · rw [Int.sign_tmod]
    split
    · rename_i hdvd
      exact .inl (Int.tmod_eq_zero_of_dvd hdvd)
    · exact .inr rfl

namespace Operator

variable {op : Operator} {a b n n' : Int}

theorem results_iff : op.Results a b n ↔ op.apply a b = .ok n := by
  cases op with
  | plus => simp [Results, apply, eq_comm]
  | minus => simp [Results, apply, eq_comm]
  | times => simp [Results, apply, eq_comm]
  | divide =>
    simp only [apply, GraphicsBatch.divide]
    constructor
    · rintro ⟨r, ha, hr, hsign⟩
      have hb : b ≠ 0 := by omega
      rw [if_neg hb, eq_tdiv_of_remainder ha hr hsign]
    · intro h
      split at h
      · cases h
      · rename_i hb
        cases h
        exact tdiv_remainder hb

theorem Results.unique (h : op.Results a b n) (h' : op.Results a b n') : n = n' :=
  Except.ok.inj ((results_iff.mp h).symm.trans (results_iff.mp h'))

theorem Results.defined (h : op.Results a b n) : ¬ (op = .divide ∧ b = 0) := by
  rintro ⟨rfl, rfl⟩
  obtain ⟨r, -, hr, -⟩ := h
  exact absurd hr (Nat.not_lt_zero _)

theorem apply_cases (op : Operator) (a b : Int) :
    (∃ n, op.Results a b n) ∨ op = .divide ∧ b = 0 ∧ op.apply a b = .error { kind := .divisionByZero } := by
  cases op with
  | plus => exact .inl ⟨a + b, rfl⟩
  | minus => exact .inl ⟨a - b, rfl⟩
  | times => exact .inl ⟨a * b, rfl⟩
  | divide =>
    by_cases hb : b = 0
    · exact .inr ⟨rfl, hb, if_pos hb⟩
    · exact .inl ⟨_, tdiv_remainder hb⟩

end Operator

/-! ## What a `Set` does -/

theorem lookup_upsert {α β : Type} [BEq α] [LawfulBEq α] (k : α) (v : β) (entries : List (α × β)) :
    (upsert k v entries).lookup k = some v := by
  induction entries with
  | nil => simp [upsert]
  | cons e entries ih =>
    obtain ⟨k', v'⟩ := e
    unfold upsert
    split
    · rename_i heq
      simp [eq_of_beq heq]
    · rename_i hne
      have hne' : (k == k') = false := by
        rw [beq_eq_false_iff_ne]
        rintro rfl
        simp at hne
      rw [List.lookup_cons, hne']
      exact ih

theorem NameTable.get_set (vs : Variables) (name : String) (n : Int) : (vs.set name n).get name = n := by
  simp [get, find?, set, lookup_upsert]

namespace Engine

variable {σ : Type}

/-- A number has been stored, and the run goes on behind the statement. -/
def stored (m : Machine σ) (st : Statement) (w : σ) (v : String) (n : Int) : Machine σ × Except Trap Unit :=
  (⟨{ m.state with vars := m.state.vars.set v n, pc := m.state.pc + 1, lastPos := some st.pos }, w⟩, .ok ())

/-- The run has ended at the statement with an error, and no variable has changed. -/
def failed (m : Machine σ) (st : Statement) (w : σ) (kind : ErrorKind) (detail : String) :
    Machine σ × Except Trap Unit :=
  (⟨{ m.state with status := .terminated, timeout := none, lastPos := some st.pos }, w⟩,
    .error (.error { kind, detail, pos := some st.pos }))

/-- A `Set` of `v` by an operation on `x` and `y` stores the exact result if there is one of 64 bits, and fails
otherwise. -/
structure Computes (m : Machine σ) (st : Statement) (w : σ) (v : String) (op : Operator) (x y : Int)
    (r : Machine σ × Except Trap Unit) : Prop where
  stores (n : Int) : r = stored m st w v n ↔ op.Results x y n ∧ Fits n
  undefined : r = failed m st w .divisionByZero "" ↔ op = .divide ∧ y = 0
  overflows (n : Int) : r = failed m st w .overflow (toString n) ↔ op.Results x y n ∧ ¬ Fits n
  ends : (∃ n, r = stored m st w v n) ∨ r = failed m st w .divisionByZero "" ∨
    ∃ n : Int, r = failed m st w .overflow (toString n)

section

variable {m : Machine σ} {st : Statement} {w : σ} {v : String} {n n' : Int} {kind kind' : ErrorKind}
  {detail detail' : String}

theorem stored_inj (h : stored m st w v n = stored m st w v n') : n = n' := by
  have hvars : m.state.vars.set v n = m.state.vars.set v n' := congrArg (·.1.state.vars) h
  rw [← m.state.vars.get_set v n, hvars, NameTable.get_set]

theorem stored_ne_failed : stored m st w v n ≠ failed m st w kind detail := by
  simp [stored, failed]

theorem failed_inj (h : failed m st w kind detail = failed m st w kind' detail') : kind = kind' ∧ detail = detail' := by
  simp only [failed, Prod.mk.injEq, Except.error.injEq, Trap.error.injEq, ProgramError.mk.injEq] at h
  exact ⟨h.2.1, h.2.2.1⟩

variable {op : Operator} {x y : Int}

theorem computes_stored (hn : op.Results x y n) (hfits : Fits n) : Computes m st w v op x y (stored m st w v n) where
  stores n' := by
    constructor
    · intro heq
      obtain rfl := stored_inj heq
      exact ⟨hn, hfits⟩
    · rintro ⟨hn', -⟩
      rw [hn.unique hn']
  undefined := ⟨fun heq => absurd heq stored_ne_failed, fun hzero => absurd hzero hn.defined⟩
  overflows n' := by
    refine ⟨fun heq => absurd heq stored_ne_failed, ?_⟩
    rintro ⟨hn', hlarge⟩
    rw [hn'.unique hn] at hlarge
    exact absurd hfits hlarge
  ends := .inl ⟨n, rfl⟩

theorem computes_overflow (hn : op.Results x y n) (hlarge : ¬ Fits n) :
    Computes m st w v op x y (failed m st w .overflow (toString n)) where
  stores n' := by
    refine ⟨fun heq => absurd heq.symm stored_ne_failed, ?_⟩
    rintro ⟨hn', hfits⟩
    rw [hn'.unique hn] at hfits
    exact absurd hfits hlarge
  undefined := ⟨fun heq => absurd (failed_inj heq).1 (by decide), fun hzero => absurd hzero hn.defined⟩
  overflows n' := by
    constructor
    · intro heq
      obtain rfl : n = n' := Int.repr_inj.mp (failed_inj heq).2
      exact ⟨hn, hlarge⟩
    · rintro ⟨hn', -⟩
      rw [hn.unique hn']
  ends := .inr (.inr ⟨n, rfl⟩)

theorem computes_undefined (hzero : op = .divide ∧ y = 0) :
    Computes m st w v op x y (failed m st w .divisionByZero "") where
  stores _ := ⟨fun heq => absurd heq.symm stored_ne_failed, fun hn => absurd hzero hn.1.defined⟩
  undefined := ⟨fun _ => hzero, fun _ => rfl⟩
  overflows _ := ⟨fun heq => absurd (failed_inj heq).1 (by decide), fun hn => absurd hzero hn.1.defined⟩
  ends := .inr (.inl rfl)

end

variable {g : Engine} {h : Host σ} {m : Machine σ} {st : Statement} {v : String} {e : Expr} {d : Datum} {w' : σ}

section

variable (hrun : m.state.status = .running) (hst : g.program.statements[m.state.pc]? = some st)
  (hact : st.action = .assign v e) (hcheck : h.call .checkEvents (g.entering h st m).world = (.ok d, w'))

include hrun hst hact hcheck

theorem step_of_eval_ok {n : Int} (heval : m.state.eval e st.pos = .ok n) : g.step h m = stored m st w' v n := by
  have heval' : (g.entering h st m).state.eval e st.pos = .ok n := heval
  rw [step_eq_conclude hrun hst]
  unfold perform
  rw [Host.ask_eq_ok.mpr hcheck]
  simp only [plan, hact, heval']
  rfl

theorem step_of_eval_error {err : ProgramError} {kind : ErrorKind} {detail : String}
    (heval : m.state.eval e st.pos = .error (.error err))
    (herr : err.locate st.pos = { kind, detail, pos := some st.pos }) : g.step h m = failed m st w' kind detail := by
  have heval' : (g.entering h st m).state.eval e st.pos = .error (.error err) := heval
  rw [step_eq_conclude hrun hst]
  unfold perform failed
  rw [Host.ask_eq_ok.mpr hcheck, ← herr]
  simp only [plan, hact, heval']
  rfl

end

theorem step_assign {a b : Operand} {op : Operator} (hrun : m.state.status = .running)
    (hst : g.program.statements[m.state.pc]? = some st) (hact : st.action = .assign v ⟨a, some (op, b)⟩)
    (hcheck : h.call .checkEvents (g.entering h st m).world = (.ok d, w')) (ha : Fits (m.state.value a))
    (hb : Fits (m.state.value b)) : Computes m st w' v op (m.state.value a) (m.state.value b) (g.step h m) := by
  rcases op.apply_cases (m.state.value a) (m.state.value b) with ⟨n, hn⟩ | ⟨hop, hzero, happly⟩
  · have happly := Operator.results_iff.mp hn
    by_cases hfits : Fits n
    · have heval : m.state.eval ⟨a, some (op, b)⟩ st.pos = .ok n := by
        simp only [State.eval, happly]
        exact if_pos hfits
      rw [step_of_eval_ok hrun hst hact hcheck heval]
      exact computes_stored hn hfits
    · have hsmall := op.apply_natAbs_le (.of_fits ha) (.of_fits hb) happly
      have heval : m.state.eval ⟨a, some (op, b)⟩ st.pos = .error (refuse .overflow n st.pos) := by
        simp only [State.eval, happly]
        exact if_neg hfits
      rw [refuse_eq hsmall] at heval
      rw [step_of_eval_error hrun hst hact hcheck heval rfl]
      exact computes_overflow hn hfits
  · have heval : m.state.eval ⟨a, some (op, b)⟩ st.pos = .error (.error { kind := .divisionByZero }) := by
      simp only [State.eval, happly]
      rfl
    rw [step_of_eval_error hrun hst hact hcheck heval rfl]
    exact computes_undefined ⟨hop, hzero⟩

/-! ## What comes from outside -/

/-- A number that comes from outside during an operation: an assignment, the place of a click or an answer to a message
box. -/
inductive Receives (g : Engine) (h : Host σ) : Machine σ → Op → Int → Prop where
  | assigned {m : Machine σ} (name : String) (value : Int) : Receives g h m (.assign name value) value
  | clickedX {m : Machine σ} {fuel : Nat} {e : Event} {he : e.isIntegral = true} {x y : Int} :
      e.read = .input (.click (.int x) (.int y)) → Receives g h m (.resume fuel e he) x
  | clickedY {m : Machine σ} {fuel : Nat} {e : Event} {he : e.isIntegral = true} {x y : Int} :
      e.read = .input (.click (.int x) (.int y)) → Receives g h m (.resume fuel e he) y
  | answered {m : Machine σ} {st : Statement} {n : Int} : m.state.status = .running →
      g.program.statements[m.state.pc]? = some st → Answered h st (g.entering h st m) n → Receives g h m .step n
  | first {m : Machine σ} {fuel : Nat} {n : Int} : Receives g h m .step n → Receives g h m (.run (fuel + 1)) n
  | later {m m' : Machine σ} {fuel : Nat} {n : Int} : g.step h m = (m', .ok ()) → Receives g h m' (.run fuel) n →
      Receives g h m (.run (fuel + 1)) n
  | woken {m m' : Machine σ} {fuel : Nat} {e : Event} {he : e.isIntegral = true} {n : Int} :
      m.state.status = .suspended → g.resume h 0 e m = (m', .ok ()) → Receives g h m' (.run fuel) n →
      Receives g h m (.resume fuel e he) n

/-- All that comes from outside in the course of some operations has `P`. -/
def ReceivesOnly (g : Engine) (h : Host σ) (P : Int → Prop) : Machine σ → List Op → Prop
  | _, [] => True
  | m, op :: ops => (∀ n, g.Receives h m op n → P n) ∧ g.ReceivesOnly h P (g.apply h m op).1 ops

/-- What an operation itself hands in has `P`. -/
def Gives (P : Int → Prop) : Op → Prop
  | .assign _ value => P value
  | .resume _ e _ => ∀ x y, e.read = .input (.click (.int x) (.int y)) → P x ∧ P y
  | _ => True

section

variable {P : Int → Prop} (hP : ∀ {n : Int}, Fits n → P n) (wf : g.program.WellFormed)

theorem Receives.of_answers {op : Op} {n : Int} (hh : h.Answers P) (hr : g.Receives h m op n) (hop : Gives P op) :
    P n := by
  induction hr with
  | assigned name value => exact hop
  | clickedX hread => exact (hop _ _ hread).1
  | clickedY hread => exact (hop _ _ hread).2
  | answered _ _ ha => exact hh.answered ha
  | first _ ih => exact ih trivial
  | later _ _ ih => exact ih trivial
  | woken _ _ _ ih => exact ih trivial

theorem receivesOnly_of_answers {ops : List Op} (hh : h.Answers P) (hops : ∀ op ∈ ops, Gives P op) :
    g.ReceivesOnly h P m ops := by
  induction ops generalizing m with
  | nil => trivial
  | cons op ops ih =>
    exact ⟨fun n hr => hr.of_answers hh (hops op List.mem_cons_self),
      ih fun op' hop' => hops op' (List.mem_cons_of_mem _ hop')⟩

theorem conclude_every {pos : Position} {r : Machine σ × Option Halt} (hr : r.1.state.Every P) :
    (conclude h pos r).1.state.Every P := by
  obtain ⟨m, _ | _ | _ | _ | _⟩ := r <;> exact ⟨hr.vars, hr.mouse⟩

theorem resume_zero_every (e : Event) (he : e.isIntegral = true)
    (hin : ∀ n, g.Receives h m (.resume 0 e he) n → P n) (hm : m.state.Every P) :
    (g.resume h 0 e m).1.state.Every P := by
  have hresumed := resumed g h 0 e m
  generalize g.resume h 0 e m = r at hresumed
  cases hresumed with
  | quit _ _ => exact ⟨hm.vars, hm.mouse⟩
  | woken _ hread hreact =>
    rcases react_cases hreact with ⟨x, y, r, t, rfl, hmatch, rfl⟩ | ⟨t, rfl⟩
    · obtain ⟨a, b, rfl, rfl⟩ := Event.click_of_isIntegral he hread (Bindings.mem_of_matchMouse hmatch).2
      have hset := (hm.set r.varX (hin _ (.clickedX hread))).set r.varY (hin _ (.clickedY hread))
      exact ⟨hset.vars, hset.mouse⟩
    · exact ⟨hm.vars, hm.mouse⟩
  | _ => exact hm

include hP wf

theorem step_every (hin : ∀ n, g.Receives h m .step n → P n) (hm : m.state.Every P) :
    (g.step h m).1.state.Every P := by
  rcases step_parts g h m with ⟨-, hstep⟩ | ⟨-, -, hstep⟩ | ⟨st, hrun, hst, hstep⟩ <;> rw [hstep]
  · exact hm
  · exact ⟨hm.vars, hm.mouse⟩
  · refine conclude_every (perform_every hP (wf.proper _ st hst) (fun n hn => hin n (.answered hrun hst hn)) ?_)
    exact ⟨hm.vars, hm.mouse⟩

theorem run_every (fuel : Nat) (hin : ∀ n, g.Receives h m (.run fuel) n → P n) (hm : m.state.Every P) :
    (g.run h fuel m).1.state.Every P := by
  induction fuel generalizing m with
  | zero => exact hm
  | succ fuel ih =>
    have hstep := step_every hP wf (fun n hn => hin n (.first hn)) hm
    unfold run
    split
    · exact hm
    · cases hr : g.step h m with
      | mk m' r =>
        rw [hr] at hstep
        cases r with
        | error t => exact hstep
        | ok _ => exact ih (fun n hn => hin n (.later hr hn)) hstep

theorem resume_every (fuel : Nat) (e : Event) (he : e.isIntegral = true)
    (hin : ∀ n, g.Receives h m (.resume fuel e he) n → P n)
    (hm : m.state.Every P) : (g.resume h fuel e m).1.state.Every P := by
  by_cases hwait : m.state.status = .suspended
  · have hfirst : (g.resume h 0 e m).1.state.Every P := by
      refine resume_zero_every e he (fun n hn => hin n ?_) hm
      cases hn with
      | clickedX hread => exact .clickedX hread
      | clickedY hread => exact .clickedY hread
      | woken _ _ hrun => cases hrun
    rw [resume_eq hwait]
    cases hr : g.resume h 0 e m with
    | mk m' r =>
      rw [hr] at hfirst
      cases r with
      | error t => exact hfirst
      | ok _ => exact run_every hP wf fuel (fun n hn => hin n (.woken hwait hr hn)) hfirst
  · simpa only [resume, ne_eq, hwait, not_false_eq_true, if_true] using hm

theorem after_every {ops : List Op} (hin : g.ReceivesOnly h P m ops) (hm : m.state.Every P) :
    (g.after h m ops).state.Every P := by
  induction ops generalizing m with
  | nil => exact hm
  | cons op ops ih =>
    obtain ⟨hop, hops⟩ := hin
    refine ih hops ?_
    cases op with
    | step => exact step_every hP wf hop hm
    | run fuel => exact run_every hP wf fuel hop hm
    | resume fuel e he => exact resume_every hP wf fuel e he hop hm
    | assign name value => exact hm.set name (hop value (.assigned name value))

end

theorem lowest_quotient : Operator.divide.Results minInt (-1) (-minInt) ∧ ¬ Fits (-minInt) := by
  refine ⟨⟨0, by decide, by decide, .inl rfl⟩, fun hfits => absurd hfits.2 (by decide)⟩

/-- Variables keep to 64 bits if all that comes from outside does, and a `Set` is exact or fails. -/
theorem set_exact_or_fails {source : String} {pedantic : Bool} {p : Program}
    (hparse : Program.parse source pedantic = .ok p) (maxStack : Int) (trace : Bool) (h : Host σ) (w : σ)
    (ops : List Op) (hin : ReceivesOnly ⟨p, maxStack, trace⟩ h Fits ⟨{}, w⟩ ops) :
    let g : Engine := ⟨p, maxStack, trace⟩
    let m := g.after h ⟨{}, w⟩ ops
    (∀ name, Fits (m.state.vars.get name)) ∧
    ∀ st v a op b d w', m.state.status = .running → p.statements[m.state.pc]? = some st →
      st.action = .assign v ⟨a, some (op, b)⟩ → h.call .checkEvents (g.entering h st m).world = (.ok d, w') →
      Computes m st w' v op (m.state.value a) (m.state.value b) (g.step h m) ∧
      (op = .divide → m.state.value a = minInt → m.state.value b = -1 →
        g.step h m = failed m st w' .overflow (toString (-minInt))) := by
  intro g m
  obtain ⟨lines, hl, rfl⟩ := Program.parse_eq_ofLines hparse
  have wf : g.program.WellFormed := Program.ofLines_wellFormed hl
  have hm : m.state.Every Fits := after_every id wf hin .init
  refine ⟨hm.get id, fun st v a op b d w' hrun hst hact hcheck => ?_⟩
  have hproper := wf.proper _ st hst
  rw [hact] at hproper
  have hset := step_assign hrun hst hact hcheck (hm.value id hproper.2.1) (hm.value id (hproper.2.2 _ _ rfl))
  refine ⟨hset, fun hop ha hb => (hset.overflows _).mpr ?_⟩
  rw [hop, ha, hb]
  exact lowest_quotient

def lowestSource : String :=
  "MessageBox(OK,1,INFORMATION,\"\",\"\",b)\nSetMouse(0,0,9,9,Hit,x,y)\nWaitInput()\nHit: Set q=a/b"

/-- Says -1 to all. -/
def contrary : Host Unit where
  call _ w := (.ok (.int (-1)), w)
  note _ w := w

/-- The lowest number comes from outside, and so do the divisor -1 and a click. -/
def lowestOps : List Op := [.assign "A" minInt, .run 9, .resume 0 ⟨.mouseClick, [.int 3, .int 4]⟩ rfl]

def lowestSet : Statement := ⟨.assign "q" ⟨.var "a", some (.divide, .var "b")⟩, ⟨4, 6⟩⟩

theorem set_exact_or_fails_lowest : ∃ p m, Program.parse lowestSource false = .ok p ∧
    ReceivesOnly ⟨p, 9, true⟩ contrary Fits ⟨{}, ()⟩ lowestOps ∧ m = after ⟨p, 9, true⟩ contrary ⟨{}, ()⟩ lowestOps ∧
    p.statements[m.state.pc]? = some lowestSet ∧ m.state.vars.get "b" = -1 ∧ m.state.vars.get "y" = 4 ∧
    step ⟨p, 9, true⟩ contrary m = failed m lowestSet () .overflow (toString (-minInt)) := by
  have hsome : (Program.parse lowestSource false).toOption.map (fun p =>
      let m := after ⟨p, 9, true⟩ contrary ⟨{}, ()⟩ lowestOps
      decide (m.state.status = .running ∧ p.statements[m.state.pc]? = some lowestSet ∧ m.state.vars.get "a" = minInt ∧
        m.state.vars.get "b" = -1 ∧ m.state.vars.get "y" = 4)) = some true := by decide +kernel
  obtain ⟨p, hparse, heq⟩ := Except.exists_of_map_toOption hsome
  obtain ⟨hrun, hst, ha, hb, hy⟩ := of_decide_eq_true heq
  have hanswers : contrary.Answers Fits := by
    intro r w d n hd hn
    cases hd
    cases hn
    exact ⟨by decide, by decide⟩
  have hgives : ∀ op ∈ lowestOps, Gives Fits op := by
    simp only [lowestOps, List.forall_mem_cons]
    refine ⟨⟨by decide, by decide⟩, trivial, fun x y hread => ?_, by simp⟩
    cases hread
    exact ⟨⟨by decide, by decide⟩, ⟨by decide, by decide⟩⟩
  have hin : ReceivesOnly ⟨p, 9, true⟩ contrary Fits ⟨{}, ()⟩ lowestOps := receivesOnly_of_answers hanswers hgives
  have hset := (set_exact_or_fails hparse 9 true contrary () lowestOps hin).2
  generalize hm : after ⟨p, 9, true⟩ contrary ⟨{}, ()⟩ lowestOps = m at hrun hst ha hb hy hset
  exact ⟨p, m, hparse, hin, hm.symm, hst, hb, hy,
    (hset lowestSet "q" (.var "a") .divide (.var "b") (.int (-1)) () hrun hst rfl rfl).2 rfl ha hb⟩

end Engine

end GraphicsBatch
