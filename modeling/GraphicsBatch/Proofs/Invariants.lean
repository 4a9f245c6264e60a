import Mathlib.Data.Nat.Digits.Defs
import GraphicsBatch.Proofs.Failures
import GraphicsBatch.Proofs.Matching
import GraphicsBatch.Proofs.Recorded

/-!
# Invariants of runs

The numbers of a run stay small, whatever is done to it: those of 64 bits stay so, and none ever gets more digits than
can be shown.
-/

namespace GraphicsBatch

/-! ## Numbers in reach -/

/-- Numbers of 64 bits. -/
def Fits (n : Int) : Prop := minInt ≤ n ∧ n ≤ maxInt

theorem Fits.of_literal {n : Nat} (h : n ≤ Parse.maxLiteral) : Fits n := by
  refine ⟨?_, ?_⟩
  · unfold minInt
    omega
  · unfold maxInt
    unfold Parse.maxLiteral at h
    omega

theorem Fits.zero : Fits 0 := .of_literal (n := 0) (by decide)

/-- The largest finite floating-point number. -/
def Binary64.largest : Nat := (2 ^ 53 - 1) * 2 ^ 971

/-- Numbers that are no larger than any floating-point number. -/
def InReach (n : Int) : Prop := n.natAbs ≤ Binary64.largest

theorem Binary64.le_largest : 2 ^ 64 ≤ largest := by
  have hpow : 2 ^ 64 ≤ 2 ^ 971 := pow_le_pow_right₀ (by decide) (by decide)
  unfold largest
  omega

theorem Binary64.largest_lt : largest < 2 ^ 1024 := by
  have hpow : 2 ^ 1024 = 2 ^ 53 * 2 ^ 971 := by rw [← pow_add]
  have hpos : 0 < 2 ^ 971 := pow_pos (by decide) _
  unfold largest
  omega

namespace InReach

theorem of_fits {n : Int} (h : Fits n) : InReach n := by
  have hsmall : n.natAbs ≤ 2 ^ 64 := by
    obtain ⟨hmin, hmax⟩ := h
    unfold minInt at hmin
    unfold maxInt at hmax
    omega
  exact hsmall.trans Binary64.le_largest

theorem zero : InReach 0 := of_fits .zero

theorem between {lower upper n : Int} (hl : InReach lower) (hu : InReach upper) (h : lower ≤ n ∧ n ≤ upper) :
    InReach n := by
  unfold InReach at hl hu ⊢
  omega

end InReach

/-- Even the product of two numbers in reach is short enough to be shown. -/
theorem Text.writeInt_eq_ok {n : Int} (h : n.natAbs ≤ Binary64.largest * Binary64.largest) :
    Text.writeInt n = .ok (toString n) := by
  have hlt : n.natAbs < 10 ^ 4300 := calc
    n.natAbs ≤ Binary64.largest * Binary64.largest := h
    _ < 2 ^ 1024 * 2 ^ 1024 := Nat.mul_lt_mul'' Binary64.largest_lt Binary64.largest_lt
    _ = 2 ^ 2048 := by rw [← pow_add]
    _ ≤ 10 ^ 2048 := pow_le_pow_left₀ (by decide) (by decide) _
    _ ≤ 10 ^ 4300 := pow_le_pow_right₀ (by decide) (by decide)
  have hlen : n.natAbs.repr.length ≤ 4300 := Nat.repr_length n.natAbs 4300 (by decide) hlt
  exact if_neg (Nat.not_lt.mpr hlen)

theorem Binary64.decode_lt {x : Float} {negative : Bool} {m : Nat} {e : Int} (h : decode x = some (negative, m, e)) :
    m < 2 ^ 53 ∧ e ≤ 971 := by
  simp only [decode] at h
  split at h
  · cases h
  split at h
  · cases h
    exact ⟨by omega, by decide⟩
  · cases h
    exact ⟨by omega, by omega⟩

theorem Binary64.split_le {m : Nat} {e : Int} (hm : m < 2 ^ 53) (he : e ≤ 971) : (split m e).1 ≤ largest := by
  have hm' : m ≤ 2 ^ 53 - 1 := Nat.le_sub_one_of_lt hm
  cases e with
  | ofNat k =>
    have hk : 2 ^ k ≤ 2 ^ 971 := pow_le_pow_right₀ (by decide) (Int.ofNat_le.mp he)
    unfold largest
    exact Nat.mul_le_mul hm' hk
  | negSucc k =>
    have hdiv : (split m (.negSucc k)).1 ≤ m := Nat.div_le_self _ _
    have hpos : 0 < 2 ^ 971 := pow_pos (by decide) _
    unfold largest
    omega

theorem Binary64.truncate_inReach {x : Float} {n : Int} (h : truncate x = .ok n) : InReach n := by
  unfold truncate at h
  split at h
  · cases h
  · rename_i negative m e hdecode
    obtain ⟨hm, he⟩ := decode_lt hdecode
    have hle := split_le hm he
    obtain rfl : (if negative then -((split m e).1 : Int) else (split m e).1) = n := Except.ok.inj h
    unfold InReach
    split <;> omega

theorem Datum.whole_inReach {d : Datum} {lower upper : Int} (hl : InReach lower) (hu : InReach upper)
    (h : d.between lower upper = true) : InReach d.whole := by
  cases d with
  | flag b => cases b <;> exact .of_fits (.of_literal (n := _) (by decide))
  | int n =>
    simp only [between, Bool.and_eq_true, decide_eq_true_eq] at h
    exact .between hl hu h
  | real x =>
    have hwhole : (real x).whole = ((Binary64.truncate x).mapError IntFault.number).toOption.getD 0 := rfl
    rw [hwhole]
    cases hx : Binary64.truncate x with
    | error f => exact .zero
    | ok n => exact Binary64.truncate_inReach hx
  | none | text _ | list _ | table _ => cases h

/-! ## The numbers of a state -/

namespace MouseRegion

/-- All corners have `P`. -/
structure Every (P : Int → Prop) (r : MouseRegion) : Prop where
  x1 : P r.x1
  y1 : P r.y1
  x2 : P r.x2
  y2 : P r.y2

theorem Every.whole {r : MouseRegion} (hr : r.Every InReach) {x y : Datum} (h : r.covers x y = true) :
    InReach x.whole ∧ InReach y.whole := by
  have hmin : ∀ {a b : Int}, InReach a → InReach b → InReach (min a b) ∧ InReach (max a b) := by
    intro a b ha hb
    unfold InReach at *
    omega
  obtain ⟨hx, hy⟩ := (Bool.and_eq_true _ _).mp h
  exact ⟨Datum.whole_inReach (hmin hr.x1 hr.x2).1 (hmin hr.x1 hr.x2).2 hx,
    Datum.whole_inReach (hmin hr.y1 hr.y2).1 (hmin hr.y1 hr.y2).2 hy⟩

end MouseRegion

theorem Bindings.mem_of_matchMouse {b : Bindings} {x y : Datum} {r : MouseRegion}
    (h : b.matchMouse x y = .ok (some r)) : r ∈ b.mouse ∧ r.covers x y = true := by
  unfold matchMouse at h
  rcases MouseRegion.find?_cases (x := x) (y := y) b.mouse.reverse with heq | ⟨heq, -⟩
  · rw [heq] at h
    have hfind := Except.ok.inj h
    exact ⟨List.mem_reverse.mp (List.mem_of_find?_eq_some hfind), by simpa using List.find?_some hfind⟩
  · rw [heq] at h
    cases h

theorem mem_of_lookup {α β : Type} [BEq α] {k : α} {v : β} {entries : List (α × β)} (h : entries.lookup k = some v) :
    ∃ e ∈ entries, e.2 = v := by
  induction entries with
  | nil => cases h
  | cons e entries ih =>
    obtain ⟨k', v'⟩ := e
    rw [List.lookup_cons] at h
    split at h
    · exact ⟨_, List.mem_cons_self, Option.some.inj h⟩
    · obtain ⟨e, he, hv⟩ := ih h
      exact ⟨e, List.mem_cons_of_mem _ he, hv⟩

theorem mem_upsert {α β : Type} [BEq α] {k : α} {v : β} {entries : List (α × β)} {e : α × β}
    (h : e ∈ upsert k v entries) : e.2 = v ∨ e ∈ entries := by
  induction entries with
  | nil =>
    obtain rfl := List.mem_singleton.mp h
    exact .inl rfl
  | cons f entries ih =>
    obtain ⟨k', v'⟩ := f
    simp only [upsert] at h
    split at h
    · rcases List.mem_cons.mp h with rfl | h
      · exact .inl rfl
      · exact .inr (List.mem_cons_of_mem _ h)
    · rcases List.mem_cons.mp h with rfl | h
      · exact .inr List.mem_cons_self
      · exact (ih h).imp_right (List.mem_cons_of_mem _)

/-- All variables and all corners of regions have `P`. -/
structure State.Every (P : Int → Prop) (s : State) : Prop where
  vars : ∀ e ∈ s.vars.entries, P e.2
  mouse : ∀ r ∈ s.bindings.mouse, r.Every P

/-- All numbers are in reach. -/
abbrev State.Near (s : State) : Prop := s.Every InReach

namespace State.Every

variable {P : Int → Prop} {s : State}

theorem init : ({} : State).Every P := ⟨nofun, nofun⟩

theorem set (hs : s.Every P) (name : String) {n : Int} (hn : P n) : (s.set name n).Every P := by
  refine ⟨fun e he => ?_, hs.mouse⟩
  rcases mem_upsert he with rfl | he
  · exact hn
  · exact hs.vars e he

theorem mono {Q : Int → Prop} (hs : s.Every P) (hPQ : ∀ {n : Int}, P n → Q n) : s.Every Q where
  vars e he := hPQ (hs.vars e he)
  mouse r hr :=
    have hr := hs.mouse r hr
    ⟨hPQ hr.x1, hPQ hr.y1, hPQ hr.x2, hPQ hr.y2⟩

variable (hs : s.Every P) (hP : ∀ {n : Int}, Fits n → P n)

include hs hP

theorem get (name : String) : P (s.vars.get name) := by
  unfold NameTable.get NameTable.find?
  cases hl : s.vars.entries.lookup (Text.upper name) with
  | none => exact hP .zero
  | some n =>
    obtain ⟨e, he, rfl⟩ := mem_of_lookup hl
    exact hs.vars e he

theorem value {x : Operand} (hx : x.Proper) : P (s.value x) := by
  cases x with
  | literal n => exact hP (.of_literal hx)
  | var name => exact hs.get hP name

theorem eval {e : Expr} {pos : Position} {n : Int} (he : e.Proper) (h : s.eval e pos = .ok n) : P n := by
  obtain ⟨first, more⟩ := e
  cases more with
  | none =>
    cases h
    exact hs.value hP he.1
  | some more =>
    obtain ⟨r, -, h⟩ := Except.bind_eq_ok.mp h
    split at h
    · rename_i hfits
      cases h
      exact hP hfits
    · cases h

theorem resolve {c : Command} {args : List Argument} (hargs : c.signature.Admits args) {n : Int}
    (h : .int n ∈ args.map s.resolve) : P n := by
  obtain ⟨⟨kind, value⟩, ha, hn⟩ := List.mem_map.mp h
  obtain ⟨slot, -, rfl, htakes⟩ := hargs.exists_slot ha
  unfold State.resolve at hn
  split at hn
  · cases hn
    exact hs.get hP _
  · cases hn
    exact hs.get hP _
  · obtain rfl : value = .int n := hn
    obtain ⟨-, hpos, hle⟩ := htakes
    obtain ⟨k, rfl⟩ := Int.eq_ofNat_of_zero_le hpos
    exact hP (.of_literal (Int.ofNat_le.mp hle))

end State.Every

/-! ## The numbers of a run -/

/-- Carrying out a statement, the host is asked for a button and says `n`. -/
def Engine.Answered {σ : Type} (h : Host σ) (st : Statement) (m : Machine σ) (n : Int) : Prop :=
  ∃ args d w d' w', st.action = .call .messageBox args ∧ h.call .checkEvents m.world = (.ok d, w) ∧
    h.call (.forward .messageBox (args.map m.state.resolve).dropLast) w = (.ok d', w') ∧ buttonNumber d' = .ok n

/-- A host whose answers to message boxes have `P`. -/
def Host.Answers {σ : Type} (P : Int → Prop) (h : Host σ) : Prop :=
  ∀ {r : Request} {w : σ} {d : Datum} {n : Int}, (h.call r w).1 = .ok d → buttonNumber d = .ok n → P n

theorem Host.Answers.mono {σ : Type} {P Q : Int → Prop} {h : Host σ} (hh : h.Answers P) (hPQ : ∀ {n : Int}, P n → Q n) :
    h.Answers Q := fun hd hn => hPQ (hh hd hn)

theorem Host.Answers.answered {σ : Type} {P : Int → Prop} {h : Host σ} {st : Statement} {m : Machine σ} {n : Int}
    (hh : h.Answers P) (ha : Engine.Answered h st m n) : P n := by
  obtain ⟨args, d, w, d', w', -, -, hcall, hn⟩ := ha
  exact hh (by rw [hcall]) hn

section

variable {σ : Type} {P : Int → Prop} (hP : ∀ {n : Int}, Fits n → P n) {h : Host σ}

include hP

theorem Planned.every {p : Program} {maxStack : Int} {s : State} {a : Action} {pl : Plan} (h : Planned p maxStack s a pl)
    (hproper : a.Proper) (hs : s.Every P) : pl.prepared.Every P ∧ ∀ {d : Datum} {s' : State},
      (∀ args, a = .call .messageBox args → pl.requests = [.forward .messageBox (args.map s.resolve).dropLast] →
        ∀ n, buttonNumber d = .ok n → P n) → pl.complete d = .ok s' → s'.Every P := by
  cases h with
  | @messageBox args name _ =>
    refine ⟨hs, fun hd hs' => ?_⟩
    obtain ⟨n, hn, hs'⟩ := Except.bind_eq_ok.mp hs'
    cases hs'
    have hset := hs.set name (hd args rfl rfl n hn)
    exact ⟨hset.vars, hset.mouse⟩
  | @assign v e pos n heval =>
    refine ⟨hs, fun _ hs' => ?_⟩
    cases hs'
    have hset := hs.set v (hs.eval hP hproper.2 heval)
    exact ⟨hset.vars, hset.mouse⟩
  | @setMouse args regions hregions =>
    obtain ⟨n, hargs⟩ := hproper
    have hvalues := MouseRegion.values_of_ofArgs hargs hregions
    have hevery : ∀ r ∈ regions, r.Every P := by
      intro r hr
      have hmem : ∀ v ∈ r.values, v ∈ args.map s.resolve := by
        intro v hv
        rw [hvalues]
        exact List.mem_flatMap.mpr ⟨r, hr, hv⟩
      have hint : ∀ n, .int n ∈ r.values → P n := fun n hn =>
        hs.resolve hP (c := .setMouse) ⟨_, hargs⟩ (hmem _ hn)
      exact ⟨hint _ (by simp [MouseRegion.values]), hint _ (by simp [MouseRegion.values]),
        hint _ (by simp [MouseRegion.values]), hint _ (by simp [MouseRegion.values])⟩
    refine ⟨⟨hs.vars, hevery⟩, fun _ hs' => ?_⟩
    cases hs'
    exact ⟨hs.vars, hevery⟩
  | cond lhs op rhs t =>
    refine ⟨hs, fun _ hs' => ?_⟩
    cases hs'
    split <;> exact ⟨hs.vars, hs.mouse⟩
  | _ =>
    refine ⟨⟨hs.vars, hs.mouse⟩, fun _ hs' => ?_⟩
    cases hs'
    exact ⟨hs.vars, hs.mouse⟩

theorem Engine.perform_every {g : Engine} {m : Machine σ} {st : Statement} (hproper : st.action.Proper)
    (hanswer : ∀ n, Answered h st m n → P n) (hm : m.state.Every P) : (g.perform h st m).1.state.Every P := by
  have hperformed := performed g h st m
  generalize g.perform h st m = r at hperformed
  cases hperformed with
  | unchecked _ | refused _ _ => exact hm
  | denied _ hpl _ | unread _ hpl _ _ => exact ((planned_of_plan hpl).every hP hproper hm).1
  | done hcheck hpl hask hs' =>
    refine ((planned_of_plan hpl).every hP hproper hm).2 (fun args hact hrequests n hn => hanswer n ?_) hs'
    rw [hrequests] at hask
    exact ⟨args, _, _, _, _, hact, Host.ask_eq_ok.mp hcheck, Host.askAll_singleton_eq_ok hask, hn⟩

theorem Engine.carries_every {g : Engine} (hg : g.program.WellFormed) (hh : h.Answers P) :
    g.Carries h fun m => m.state.Every P where
  place _ hm := ⟨hm.vars, hm.mouse⟩
  note _ hm := hm
  terminate hm := ⟨hm.vars, hm.mouse⟩
  perform {_ st} _ hst hm := perform_every hP (hg.proper _ st hst) (fun _ ha => hh.answered ha) hm

end

namespace Engine

variable {g : Engine} {s s' : State}

theorem wakeAt_eq {o : Option String} (h : g.wakeAt s o = .ok (some s')) : ∃ t, s' = (s.jump t).wake := by
  cases o with
  | none => cases h
  | some l =>
    obtain ⟨t, -, h⟩ := Except.bind_eq_ok.mp h
    cases h
    exact ⟨t, rfl⟩

theorem react_cases {i : Input} (h : g.react s i = .ok (some s')) :
    (∃ x y r t, i = .click x y ∧ s.bindings.matchMouse x y = .ok (some r) ∧
      s' = (((s.set r.varX x.whole).set r.varY y.whole).jump t).wake) ∨ ∃ t, s' = (s.jump t).wake := by
  cases i with
  | click x y =>
    obtain ⟨found, hfound, h⟩ := Except.bind_eq_ok.mp h
    cases found with
    | none => cases h
    | some r =>
      obtain ⟨t, rfl⟩ := wakeAt_eq (s := (s.set r.varX x.whole).set r.varY y.whole) h
      exact .inl ⟨x, y, r, t, rfl, Except.mapError_eq_ok.mp hfound, rfl⟩
  | key code char ctrl =>
    obtain ⟨o, -, h⟩ := Except.bind_eq_ok.mp h
    exact .inr (wakeAt_eq h)
  | menu id =>
    obtain ⟨o, -, h⟩ := Except.bind_eq_ok.mp h
    exact .inr (wakeAt_eq h)
  | timeout =>
    simp only [react] at h
    split at h
    · cases h
      exact .inr ⟨s.pc + 1, rfl⟩
    · cases h
  | quit => cases h

theorem preserves_near {σ : Type} {h : Host σ} (hg : g.program.WellFormed) (hh : h.Answers InReach) :
    g.Preserves h fun m => m.state.Near where
  toCarries := carries_every .of_fits hg hh
  react {m i s} hreact hm := by
    rcases react_cases hreact with ⟨x, y, r, t, -, hmatch, rfl⟩ | ⟨t, rfl⟩
    · obtain ⟨hr, hcovers⟩ := Bindings.mem_of_matchMouse hmatch
      obtain ⟨hx, hy⟩ := (hm.mouse r hr).whole hcovers
      have hset := (hm.set r.varX hx).set r.varY hy
      exact ⟨hset.vars, hset.mouse⟩
    · exact ⟨hm.vars, hm.mouse⟩

end Engine

end GraphicsBatch
