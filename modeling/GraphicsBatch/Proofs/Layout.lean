import GraphicsBatch.Proofs.Proper

/-!
# Lines laid out as a program

The lines of a program become one row of statements. The groups tile it, a failed condition goes to the
end of its group, and the label table finds each label once.
-/

namespace GraphicsBatch

/-! ## Ranges in a row -/

/-- Non-empty ranges, each of which starts where the one before it ends, from `a` to `b`. -/
def Tiles : Nat → List (Nat × Nat) → Nat → Prop
  | a, [], b => a = b
  | a, g :: gs, b => g.1 = a ∧ g.1 < g.2 ∧ Tiles g.2 gs b

namespace Tiles

variable {a b i : Nat} {g g' : Nat × Nat} {gs : List (Nat × Nat)}

theorem le (h : Tiles a gs b) : a ≤ b := by
  induction gs generalizing a with
  | nil => exact Nat.le_of_eq h
  | cons g gs ih =>
    obtain ⟨h1, h2, h3⟩ := h
    have := ih h3
    omega

theorem bounds (h : Tiles a gs b) (hg : g ∈ gs) : a ≤ g.1 ∧ g.1 < g.2 ∧ g.2 ≤ b := by
  induction gs generalizing a with
  | nil => simp at hg
  | cons f gs ih =>
    obtain ⟨h1, h2, h3⟩ := h
    rcases List.mem_cons.mp hg with rfl | hg
    · have := h3.le
      omega
    · have := ih h3 hg
      omega

theorem exists_mem (h : Tiles a gs b) (ha : a ≤ i) (hb : i < b) : ∃ g ∈ gs, g.1 ≤ i ∧ i < g.2 := by
  induction gs generalizing a with
  | nil =>
    have : a = b := h
    omega
  | cons f gs ih =>
    obtain ⟨h1, h2, h3⟩ := h
    by_cases hi : i < f.2
    · exact ⟨f, List.mem_cons_self, by omega, hi⟩
    · obtain ⟨g, hg, hgi⟩ := ih h3 (by omega)
      exact ⟨g, List.mem_cons_of_mem _ hg, hgi⟩

theorem eq_of_mem (h : Tiles a gs b) (hg : g ∈ gs) (hg' : g' ∈ gs) (hi : g.1 ≤ i ∧ i < g.2)
    (hi' : g'.1 ≤ i ∧ i < g'.2) : g = g' := by
  induction gs generalizing a with
  | nil => simp at hg
  | cons f gs ih =>
    obtain ⟨h1, h2, h3⟩ := h
    rcases List.mem_cons.mp hg with rfl | hm <;> rcases List.mem_cons.mp hg' with rfl | hm'
    · rfl
    · have := h3.bounds hm'
      omega
    · have := h3.bounds hm
      omega
    · exact ih h3 hm hm'

theorem eq_nil_iff (h : Tiles a gs b) : gs = [] ↔ a = b := by
  cases gs with
  | nil => simpa [Tiles] using h
  | cons f gs =>
    obtain ⟨h1, h2, h3⟩ := h
    have := h3.le
    simp only [reduceCtorEq, false_iff]
    omega

end Tiles

/-! ## Statements whose target is set -/

namespace Statement

@[simp] theorem skippingTo_labelKey? (s : Statement) (t : Nat) :
    (s.skippingTo t).action.labelKey? = s.action.labelKey? := by
  unfold skippingTo; split <;> simp_all [Action.labelKey?]

@[simp] theorem skippingTo_mentions (s : Statement) (t : Nat) :
    (s.skippingTo t).action.mentions = s.action.mentions := by
  unfold skippingTo; split <;> simp_all [Action.mentions]

@[simp] theorem skippingTo_proper (s : Statement) (t : Nat) :
    (s.skippingTo t).action.Proper ↔ s.action.Proper := by
  unfold skippingTo; split <;> simp_all [Action.Proper]

theorem skippingTo_cond {s : Statement} {t u : Nat} {lhs rhs : Operand} {op : Comparison}
    (h : (s.skippingTo t).action = .cond lhs op rhs u) : u = t := by
  unfold skippingTo at h
  split at h
  · cases h; rfl
  · rename_i hne
    exact absurd h (hne _ _ _ _)

end Statement

/-! ## Laying out -/

/-- The statements of each group. -/
def Program.lines (p : Program) : List (List Statement) :=
  p.groups.map fun g => (p.statements.extract g.1 g.2).toList

namespace Program

variable {i : Nat} {lines : List (List Statement)} {st : Statement}

@[simp] theorem length_statementsFrom (start : Nat) :
    (statementsFrom start lines).length = lines.flatten.length := by
  induction lines generalizing start with
  | nil => rfl
  | cons line lines ih => simp [statementsFrom, ih]

theorem groupsFrom_tiles (start : Nat) : Tiles start (groupsFrom start lines) (start + lines.flatten.length) := by
  induction lines generalizing start with
  | nil => simp [groupsFrom, Tiles]
  | cons line lines ih =>
    simp only [groupsFrom, List.flatten_cons, List.length_append]
    rw [← Nat.add_assoc]
    split
    · rename_i hl
      rw [List.isEmpty_iff] at hl
      subst hl
      exact ih _
    · rename_i hl
      have : 0 < line.length := List.length_pos_iff.mpr (by simpa using hl)
      exact ⟨rfl, by simp only; omega, ih _⟩

theorem statementsFrom_getElem? {start : Nat} (h : (statementsFrom start lines)[i]? = some st) :
    ∃ g ∈ groupsFrom start lines, (g.1 ≤ start + i ∧ start + i < g.2) ∧
      ∃ s, lines.flatten[i]? = some s ∧ st = s.skippingTo g.2 := by
  induction lines generalizing start i with
  | nil => simp [statementsFrom] at h
  | cons line lines ih =>
    simp only [statementsFrom] at h
    simp only [groupsFrom, List.flatten_cons]
    -- The index is on the first line, or it is one of the lines behind it.
    by_cases hi : i < line.length
    · have hne : line.isEmpty = false := by
        rw [List.isEmpty_eq_false_iff]
        rintro rfl
        simp at hi
      rw [List.getElem?_append_left (by simpa using hi), List.getElem?_map] at h
      obtain ⟨s, hs, rfl⟩ := Option.map_eq_some_iff.mp h
      refine ⟨(start, start + line.length), by simp [hne], by simp only; omega, s, ?_, rfl⟩
      rw [List.getElem?_append_left hi, hs]
    · rw [List.getElem?_append_right (by simpa using hi), List.length_map] at h
      obtain ⟨g, hg, hgi, s, hs, rfl⟩ := ih h
      refine ⟨g, ?_, by omega, s, ?_, rfl⟩
      · split
        · exact hg
        · exact List.mem_cons_of_mem _ hg
      · rw [List.getElem?_append_right (by omega), hs]

theorem statementsFrom_labelKey? (start : Nat) :
    (statementsFrom start lines).map (·.action.labelKey?) = lines.flatten.map (·.action.labelKey?) := by
  induction lines generalizing start with
  | nil => rfl
  | cons line lines ih => simp [statementsFrom, ih]

/-! ### The label table -/

theorem labelsFrom_cons (start : Nat) (s : Statement) (sts : List Statement) :
    labelsFrom start (s :: sts) =
      (s.action.labelKey?.map (·, start + 1)).toList ++ labelsFrom (start + 1) sts := by
  obtain ⟨action, pos⟩ := s
  cases action <;> rfl

theorem labelsFrom_lookup (start : Nat) {sts : List Statement} {K : String} {j : Nat}
    (hu : (labelKeys sts).Nodup) :
    (labelsFrom start sts).lookup K = some j ↔
      ∃ i s, j = start + i + 1 ∧ sts[i]? = some s ∧ s.action.labelKey? = some K := by
  induction sts generalizing start with
  | nil => simp [labelsFrom]
  | cons s sts ih =>
    rw [labelsFrom_cons]
    -- Behind the first statement, the indices of the rest are one larger.
    have later : (∃ i t, j = start + 1 + i + 1 ∧ sts[i]? = some t ∧ t.action.labelKey? = some K) ↔
        ∃ i t, j = start + (i + 1) + 1 ∧ (s :: sts)[i + 1]? = some t ∧ t.action.labelKey? = some K := by
      simp [Nat.add_right_comm, Nat.add_assoc]
    cases hk : s.action.labelKey? with
    | none =>
      have hu' : (labelKeys sts).Nodup := by simpa [labelKeys, List.filterMap_cons, hk] using hu
      simp only [Option.map_none, Option.toList_none, List.nil_append, ih _ hu', later]
      constructor
      · rintro ⟨i, t, h⟩
        exact ⟨i + 1, t, h⟩
      · rintro ⟨i, t, hj, ht, hK⟩
        cases i with
        | zero => simp_all
        | succ i => exact ⟨i, t, hj, ht, hK⟩
    | some L =>
      have hu' : L ∉ labelKeys sts ∧ (labelKeys sts).Nodup := by
        simpa [labelKeys, List.filterMap_cons, hk] using hu
      simp only [Option.map_some, Option.toList_some, List.singleton_append, List.lookup_cons]
      by_cases hKL : K = L
      · subst hKL
        simp only [beq_self_eq_true, Option.some.injEq]
        constructor
        · rintro rfl
          exact ⟨0, s, rfl, rfl, hk⟩
        · rintro ⟨i, t, hj, ht, hK⟩
          cases i with
          | zero => simp_all
          | succ i =>
            -- A second label of this name is not possible.
            rw [List.getElem?_cons_succ] at ht
            exact absurd (List.mem_filterMap.mpr ⟨t, List.mem_of_getElem? ht, hK⟩) hu'.1
      · rw [beq_false_of_ne hKL, ih _ hu'.2, later]
        constructor
        · rintro ⟨i, t, h⟩
          exact ⟨i + 1, t, h⟩
        · rintro ⟨i, t, hj, ht, hK⟩
          cases i with
          | zero => simp_all
          | succ i => exact ⟨i, t, hj, ht, hK⟩

/-! ## Well-formed programs -/

/-- What the engine relies on in a program. -/
structure WellFormed (p : Program) : Prop where
  tiles : Tiles 0 p.groups p.size
  proper : ∀ (i : Nat) (st : Statement), p.statements[i]? = some st → st.action.Proper
  skips : ∀ (i : Nat) (st : Statement) lhs op rhs t, p.statements[i]? = some st → st.action = .cond lhs op rhs t →
    ∀ g ∈ p.groups, g.1 ≤ i ∧ i < g.2 → t = g.2
  labels : ∀ K j, p.labels.lookup K = some j ↔
    ∃ (i : Nat) (st : Statement), j = i + 1 ∧ p.statements[i]? = some st ∧ st.action.labelKey? = some K
  unique : ∀ (i j : Nat) (st st' : Statement) K, p.statements[i]? = some st → p.statements[j]? = some st' →
    st.action.labelKey? = some K → st'.action.labelKey? = some K → i = j
  defined : ∀ (i : Nat) (st : Statement), p.statements[i]? = some st → ∀ l ∈ st.action.mentions, p.hasLabel l = true

theorem getElem?_eq_of_labelKeys_nodup {sts : List Statement} {j : Nat} {s t : Statement} {K : String}
    (hu : (labelKeys sts).Nodup) (hs : sts[i]? = some s) (ht : sts[j]? = some t)
    (hsK : s.action.labelKey? = some K) (htK : t.action.labelKey? = some K) : i = j := by
  -- Both indices are where the label table has to point.
  have hi := (labelsFrom_lookup 0 hu).mpr ⟨i, s, rfl, hs, hsK⟩
  have hj := (labelsFrom_lookup 0 hu).mpr ⟨j, t, rfl, ht, htK⟩
  rw [hi] at hj
  simpa using hj

@[simp] theorem size_ofLines : (ofLines lines).size = lines.flatten.length := by
  simp [ofLines, size]

theorem ofLines_getElem? (h : (ofLines lines).statements[i]? = some st) :
    ∃ g ∈ (ofLines lines).groups, (g.1 ≤ i ∧ i < g.2) ∧
      ∃ s, lines.flatten[i]? = some s ∧ st = s.skippingTo g.2 := by
  have h' : (statementsFrom 0 lines)[i]? = some st := by simpa [ofLines] using h
  simpa [ofLines] using statementsFrom_getElem? h'

theorem ofLines_labelKey? (i : Nat) :
    (ofLines lines).statements[i]?.bind (·.action.labelKey?) = lines.flatten[i]?.bind (·.action.labelKey?) := by
  have h := congrArg (·[i]?) (@statementsFrom_labelKey? lines 0)
  simp only [List.getElem?_map] at h
  simp only [ofLines, List.getElem?_toArray]
  cases h1 : (statementsFrom 0 lines)[i]? <;> cases h2 : lines.flatten[i]? <;> simp_all

theorem ofLines_wellFormed (hl : ProperLines lines) : (ofLines lines).WellFormed where
  tiles := by
    have := @groupsFrom_tiles lines 0
    rwa [Nat.zero_add, ← size_ofLines] at this
  proper := by
    intro i st h
    obtain ⟨g, -, -, s, hs, rfl⟩ := ofLines_getElem? h
    rw [Statement.skippingTo_proper]
    exact hl.proper s (List.mem_of_getElem? hs)
  skips := by
    intro i st lhs op rhs t h hc g hg hgi
    obtain ⟨g', hg', hgi', s, -, rfl⟩ := ofLines_getElem? h
    have htiles : Tiles 0 (ofLines lines).groups (0 + lines.flatten.length) := groupsFrom_tiles 0
    rw [Statement.skippingTo_cond hc, htiles.eq_of_mem hg hg' hgi hgi']
  labels := by
    intro K j
    -- Setting the targets of conditions leaves the labels where they are.
    refine (labelsFrom_lookup 0 hl.unique).trans ?_
    constructor
    · rintro ⟨i, s, hj, hs, hK⟩
      have hb : (ofLines lines).statements[i]?.bind (·.action.labelKey?) = some K := by
        rw [ofLines_labelKey?, hs, Option.bind_some, hK]
      obtain ⟨st, hst, hstK⟩ := Option.bind_eq_some_iff.mp hb
      exact ⟨i, st, by omega, hst, hstK⟩
    · rintro ⟨i, st, hj, hst, hK⟩
      obtain ⟨g, -, -, s, hs, rfl⟩ := ofLines_getElem? hst
      exact ⟨i, s, by omega, hs, by simpa using hK⟩
  unique := by
    intro i j st st' K h h' hK hK'
    obtain ⟨g, -, -, s, hs, rfl⟩ := ofLines_getElem? h
    obtain ⟨g', -, -, s', hs', rfl⟩ := ofLines_getElem? h'
    rw [Statement.skippingTo_labelKey?] at hK hK'
    exact getElem?_eq_of_labelKeys_nodup hl.unique hs hs' hK hK'
  defined := by
    intro i st h l hm
    obtain ⟨g, -, -, s, hs, rfl⟩ := ofLines_getElem? h
    rw [Statement.skippingTo_mentions] at hm
    have hkey := hl.defined s (List.mem_of_getElem? hs) l hm
    obtain ⟨t, ht, htK⟩ := List.mem_filterMap.mp hkey
    obtain ⟨j, hj⟩ := List.mem_iff_getElem?.mp ht
    have : (ofLines lines).labels.lookup (Text.upper l) = some (0 + j + 1) :=
      (labelsFrom_lookup 0 hl.unique).mpr ⟨j, t, rfl, hj, htK⟩
    simp [hasLabel, this]

/-! ### What follows for every well-formed program -/

namespace WellFormed

variable {p : Program}

theorem groupOf_eq (wf : p.WellFormed) {g : Nat × Nat} (hg : g ∈ p.groups) (hi : g.1 ≤ i ∧ i < g.2) :
    p.groupOf i = some g := by
  cases hf : p.groupOf i with
  | none =>
    have := List.find?_eq_none.mp hf g hg
    simp only [Bool.and_eq_true, decide_eq_true_eq, not_and] at this
    omega
  | some f =>
    have hfi := List.find?_some hf
    simp only [Bool.and_eq_true, decide_eq_true_eq] at hfi
    rw [wf.tiles.eq_of_mem (List.mem_of_find?_eq_some hf) hg (by omega) hi]

theorem groupOf_eq_none (wf : p.WellFormed) {k : Int} (hk : ¬ (0 ≤ k ∧ k < p.size)) : p.groupOf k = none := by
  refine List.find?_eq_none.mpr fun g hg => ?_
  have := wf.tiles.bounds hg
  simp only [Bool.and_eq_true, decide_eq_true_eq, not_and]
  omega

theorem skip_bounds (wf : p.WellFormed) {lhs rhs : Operand} {op : Comparison} {t : Nat}
    (h : p.statements[i]? = some st) (hc : st.action = .cond lhs op rhs t) : i < t ∧ t ≤ p.size := by
  obtain ⟨hi, -⟩ := Array.getElem?_eq_some_iff.mp h
  obtain ⟨g, hg, hgi⟩ := wf.tiles.exists_mem (Nat.zero_le i) hi
  have ht := wf.skips i st lhs op rhs t h hc g hg hgi
  have := wf.tiles.bounds hg
  omega

theorem target_bounds (wf : p.WellFormed) {K : String} {j : Nat} (h : p.labels.lookup K = some j) :
    1 ≤ j ∧ j ≤ p.size := by
  obtain ⟨i, st, rfl, hi, -⟩ := (wf.labels K j).mp h
  obtain ⟨hi, -⟩ := Array.getElem?_eq_some_iff.mp hi
  exact ⟨Nat.succ_pos i, hi⟩

theorem lookup_ne_none (wf : p.WellFormed) {l : String} (h : p.statements[i]? = some st) (hl : l ∈ st.action.mentions) :
    p.labels.lookup (Text.upper l) ≠ none := by
  intro hnone
  have hdefined := wf.defined i st h l hl
  simp [Program.hasLabel, hnone] at hdefined

end WellFormed

end Program

end GraphicsBatch
