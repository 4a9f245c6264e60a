import Mathlib.Data.List.Induction
import GraphicsBatch.Engine.Event
import GraphicsBatch.Proofs.Bindings

/-!
# What an event finds

Which region a click is in, which pair a key press means and which entry of a menu is chosen, said without the
search for them. The last region counts, and the last label of a key; codes of keys come before characters.
-/

namespace GraphicsBatch

namespace Datum

def isNumber : Datum → Bool
  | flag _ | int _ | real _ => true
  | _ => false

/-- If it is a number, it is an integer. -/
def isIntegral : Datum → Bool
  | flag _ | real _ => false
  | _ => true

/-- Lists and tables are looked up nowhere. -/
def isScalar : Datum → Bool
  | list _ | table _ => false
  | _ => true

/-- Whether a datum is a number between two integers, which are in it. -/
def between (lower upper : Int) : Datum → Bool
  | flag b => lower ≤ ofFlag b && ofFlag b ≤ upper
  | int n => lower ≤ n && n ≤ upper
  | real x => Binary64.atLeast lower x && Binary64.atMost upper x
  | _ => false

/-- The key that a code names, if there is a code. -/
def codeKey? (code : Datum) : Option Value :=
  match code.lookup with
  | .value .nothing => Option.none
  | .value v => some v
  | _ => Option.none

/-- The physical key that types a character, if there is a character. -/
def charKey? (char : Datum) (ctrl : Bool) : Option Value :=
  match char with
  | text s =>
    match s.toList with
    | [c] => some (.key ⟨c, ctrl⟩)
    | _ => Option.none
  | _ => Option.none

/-- The index of an entry with some number, where entries are numbered from 1. -/
def index? (id : Datum) : Option Nat :=
  match id.lookup with
  | .value (.int n) => if 1 ≤ n then some (n - 1).toNat else Option.none
  | _ => Option.none

theorem within_eq (lower upper : Int) (d : Datum) :
    d.within lower upper = if d.isNumber then .ok (d.between lower upper) else .error {} := by
  cases d <;> rfl

theorem exists_int {d : Datum} (hnumber : d.isNumber = true) (hintegral : d.isIntegral = true) : ∃ n, d = .int n := by
  cases d with
  | int n => exact ⟨n, rfl⟩
  | flag _ | real _ => cases hintegral
  | _ => cases hnumber

theorem between_of_not_number {lower upper : Int} {d : Datum} (h : d.isNumber = false) :
    d.between lower upper = false := by
  cases d <;> first | rfl | cases h

theorem isScalar_iff {d : Datum} : d.isScalar = true ↔ d.lookup ≠ .unfit := by
  cases d with
  | real x =>
    simp only [isScalar, lookup, true_iff]
    split <;> simp
  | _ => simp [isScalar, lookup]

end Datum

/-! ## Clicks -/

namespace MouseRegion

/-- Whether a point lies in a region, edges included and corners in any order. -/
def covers (r : MouseRegion) (x y : Datum) : Bool :=
  x.between (min r.x1 r.x2) (max r.x1 r.x2) && y.between (min r.y1 r.y2) (max r.y1 r.y2)

variable {x y : Datum}

theorem covers_of_not_number (h : (x.isNumber && y.isNumber) = false) (r : MouseRegion) : r.covers x y = false := by
  rw [Bool.and_eq_false_iff] at h
  rcases h with h | h <;> simp [covers, Datum.between_of_not_number h]

theorem isNumber_of_covers {r : MouseRegion} (h : r.covers x y = true) : x.isNumber = true ∧ y.isNumber = true := by
  rw [← Bool.and_eq_true, ← Bool.not_eq_false]
  intro hnot
  rw [covers_of_not_number hnot] at h
  cases h

theorem contains_cases (r : MouseRegion) :
    r.contains x y = .ok (r.covers x y) ∨ r.contains x y = .error {} ∧ (x.isNumber && y.isNumber) = false := by
  unfold contains covers
  rw [Datum.within_eq, Datum.within_eq]
  cases x.isNumber with
  | false => exact .inr ⟨rfl, rfl⟩
  | true =>
    cases x.between (min r.x1 r.x2) (max r.x1 r.x2) with
    | false => exact .inl rfl
    | true =>
      cases y.isNumber with
      | false => exact .inr ⟨rfl, rfl⟩
      | true => exact .inl rfl

theorem find?_cases (rs : List MouseRegion) :
    find? x y rs = .ok (rs.find? (·.covers x y)) ∨ find? x y rs = .error {} ∧ (x.isNumber && y.isNumber) = false := by
  induction rs with
  | nil => exact .inl rfl
  | cons r rs ih =>
    rw [find?, List.find?_cons]
    rcases contains_cases (x := x) (y := y) r with h | ⟨h, hnot⟩
    · rw [h]
      cases r.covers x y with
      | true => exact .inl rfl
      | false => exact ih
    · rw [h]
      exact .inr ⟨rfl, hnot⟩

end MouseRegion

/-- A search that finds this, or fails for the kind of its parts. -/
def Finds {α : Type} (r : Except Misfit (Option α)) (found : Option α) (fits : Bool) : Prop :=
  r = .ok found ∨ r = .error {} ∧ found = none ∧ fits = false

theorem find?_reverse_eq_getLast? {α : Type} (f : α → Bool) (xs : List α) :
    xs.reverse.find? f = (xs.filter f).getLast? := by
  rw [← List.head?_filter, List.filter_reverse, List.head?_reverse]

theorem Bindings.matchMouse_finds (b : Bindings) (x y : Datum) :
    Finds (b.matchMouse x y) (b.mouse.filter (·.covers x y)).getLast? (x.isNumber && y.isNumber) := by
  rw [← find?_reverse_eq_getLast?]
  rcases MouseRegion.find?_cases (x := x) (y := y) b.mouse.reverse with h | ⟨h, hnot⟩
  · exact .inl h
  · refine .inr ⟨h, ?_, hnot⟩
    rw [List.find?_eq_none]
    intro r _
    simp [MouseRegion.covers_of_not_number hnot]

/-- The coordinates of a click are integers, if they are numbers at all. -/
def Event.isIntegral (e : Event) : Bool :=
  match e.read with
  | .input (.click x y) => x.isIntegral && y.isIntegral
  | _ => true

theorem Event.click_of_isIntegral {e : Event} {x y : Datum} {r : MouseRegion} (he : e.isIntegral = true)
    (hread : e.read = .input (.click x y)) (hcovers : r.covers x y = true) : ∃ a b, x = .int a ∧ y = .int b := by
  obtain ⟨hx, hy⟩ := MouseRegion.isNumber_of_covers hcovers
  simp only [isIntegral, hread, Bool.and_eq_true] at he
  obtain ⟨a, rfl⟩ := Datum.exists_int hx he.1
  obtain ⟨b, rfl⟩ := Datum.exists_int hy he.2
  exact ⟨a, b, rfl, rfl⟩

/-! ## Key presses -/

/-- Keys that only count as themselves: integers, texts and physical keys. -/
def Value.IsOwnKey (v : Value) : Prop := v.asKey = v ∧ ∀ x, v ≠ .var x

theorem Value.IsOwnKey.asKey_eq_iff {k v : Value} (hv : v.IsOwnKey) : k.asKey = v.asKey ↔ k = v := by
  obtain ⟨hself, hname⟩ := hv
  rw [hself]
  cases k with
  | token x | label x =>
    constructor
    · intro h
      exact absurd h.symm (hname x)
    · intro h
      rw [← h] at hself
      cases hself
  | _ => rfl

theorem Datum.isOwnKey_codeKey? {code : Datum} {v : Value} (h : code.codeKey? = some v) : v.IsOwnKey := by
  have hint : ∀ n, (Value.int n).IsOwnKey := fun n => ⟨rfl, by simp⟩
  cases code with
  | none | list _ | table _ => cases h
  | flag b => cases h; exact hint _
  | int n => cases h; exact hint n
  | text s => cases h; exact ⟨rfl, by simp⟩
  | real x =>
    simp only [codeKey?, lookup] at h
    cases hx : Binary64.toInt? x with
    | none => simp [hx] at h
    | some n =>
      simp only [hx] at h
      cases h
      exact hint n

theorem Datum.isOwnKey_charKey? {char : Datum} {ctrl : Bool} {v : Value} (h : char.charKey? ctrl = some v) :
    v.IsOwnKey := by
  unfold charKey? at h
  split at h
  · split at h <;> cases h
    exact ⟨rfl, by simp⟩
  · cases h

namespace KeyTable

variable {v : Value}

theorem find?_eq (hv : v.IsOwnKey) (t : KeyTable) : t.find? v = (List.find? (fun e => e.1 = v) t).map (·.2) := by
  unfold KeyTable.find?
  simp only [hv.asKey_eq_iff]

theorem find?_insert (k : Value) (l : String) (t : KeyTable) (v : Value) :
    (insert k l t).find? v = if k.asKey = v.asKey then some l else t.find? v := by
  unfold KeyTable.find?
  induction t with
  | nil => by_cases h : k.asKey = v.asKey <;> simp [insert, h]
  | cons e t ih =>
    obtain ⟨k', l'⟩ := e
    unfold insert
    by_cases hk : k'.asKey = k.asKey
    · rw [if_pos hk]
      by_cases h : k.asKey = v.asKey
      · simp [hk, h]
      · simp [hk, h]
    · rw [if_neg hk]
      by_cases h : k'.asKey = v.asKey
      · have hne : k.asKey ≠ v.asKey := fun hkv => hk (h.trans hkv.symm)
        simp [h, hne]
      · simp [h, ih]

/-- The last label of a key counts. -/
theorem find?_ofPairs (hv : v.IsOwnKey) (keys : List (Value × String)) :
    (ofPairs keys).find? v = ((keys.filter fun e => e.1 = v).getLast?).map (·.2) := by
  induction keys using List.reverseRecOn with
  | nil => rfl
  | append_singleton keys e ih =>
    have hfold : ofPairs (keys ++ [e]) = insert e.1 e.2 (ofPairs keys) := by
      simp [ofPairs, List.foldl_append]
    rw [hfold, find?_insert, ih, List.filter_append]
    simp only [hv.asKey_eq_iff]
    by_cases h : e.1 = v
    · simp [h]
    · simp [h]

end KeyTable

namespace Bindings

theorem matchCode_eq (b : Bindings) {code : Datum} (h : code.isScalar = true) :
    b.matchCode code = .ok (code.codeKey?.bind b.keyboard.find?) := by
  unfold matchCode Datum.codeKey?
  cases hl : code.lookup with
  | value v => cases v <;> rfl
  | nowhere => rfl
  | unfit => exact absurd hl (Datum.isScalar_iff.mp h)

theorem matchChar_finds (b : Bindings) (char : Datum) (ctrl : Bool) :
    Finds (b.matchChar char ctrl) ((char.charKey? ctrl).bind b.keyboard.find?) char.isScalar := by
  unfold matchChar
  by_cases htrue : char.isTrue = true
  · rw [if_neg (by simp [htrue])]
    cases char with
    | text s =>
      left
      simp only [Datum.charKey?]
      rcases s.toList with _ | ⟨c, _ | ⟨d, rest⟩⟩ <;> rfl
    | list items => exact .inr ⟨rfl, rfl, rfl⟩
    | table entries => exact .inr ⟨rfl, rfl, rfl⟩
    | _ => exact .inl rfl
  · rw [if_pos (by simpa using htrue)]
    left
    cases char with
    | text s =>
      have hs : s = "" := by simpa [Datum.isTrue] using htrue
      subst hs
      rfl
    | _ => rfl

/-- Codes come before characters. -/
theorem matchKey_finds (b : Bindings) {code : Datum} (h : code.isScalar = true) (char : Datum) (ctrl : Bool) :
    Finds (b.matchKey code char ctrl)
      ((code.codeKey?.bind b.keyboard.find?).or ((char.charKey? ctrl).bind b.keyboard.find?)) char.isScalar := by
  unfold matchKey
  rw [b.matchCode_eq h]
  cases code.codeKey?.bind b.keyboard.find? with
  | some l => exact .inl rfl
  | none =>
    rw [Option.none_or]
    exact b.matchChar_finds char ctrl

theorem matchKey_unfit (b : Bindings) {code : Datum} (h : code.isScalar = false) (char : Datum) (ctrl : Bool) :
    b.matchKey code char ctrl = .error {} := by
  cases code with
  | list items => rfl
  | table entries => rfl
  | _ => cases h

end Bindings

/-! ## Menu entries -/

namespace Menu

/-- Entries have their places as numbers, from 1 on. -/
def Numbered (menu : Menu) : Prop := ∀ k i, menu.items[k]? = some i → i.id = k + 1

theorem find?_id {is : List MenuItem} {start : Nat} (h : ∀ k i, is[k]? = some i → i.id = k + start) (n : Nat) :
    is.find? (fun i => i.id = n) = if start ≤ n then is[n - start]? else none := by
  induction is generalizing start with
  | nil => simp
  | cons i is ih =>
    have hi : i.id = start := by simpa using h 0 i rfl
    have hrest : ∀ k j, is[k]? = some j → j.id = k + (start + 1) := by
      intro k j hj
      have := h (k + 1) j (by simpa using hj)
      omega
    rw [List.find?_cons]
    by_cases heq : i.id = n
    · have hn : n = start := by omega
      simp [hi, hn]
    · simp only [heq, decide_false, ih hrest]
      by_cases hle : start ≤ n
      · rw [if_pos hle, if_pos (by omega), show n - start = n - (start + 1) + 1 by omega, List.getElem?_cons_succ]
      · rw [if_neg hle, if_neg (by omega)]

theorem Numbered.find? {menu : Menu} (h : menu.Numbered) (n : Int) :
    menu.items.find? (fun i => Value.int i.id = .int n) = if 1 ≤ n then menu.items[(n - 1).toNat]? else none := by
  by_cases hn : 1 ≤ n
  · obtain ⟨k, rfl⟩ := Int.eq_ofNat_of_zero_le (show 0 ≤ n by omega)
    have hk : 1 ≤ k := by omega
    simp only [Value.int.injEq, Int.ofNat_inj, find?_id h, if_pos hn, if_pos hk]
    congr 1
    omega
  · rw [if_neg hn, List.find?_eq_none]
    intro i hi
    obtain ⟨k, hk⟩ := List.getElem?_of_mem hi
    have := h k i hk
    simp only [Value.int.injEq, decide_eq_true_eq]
    omega

end Menu

theorem Bindings.matchMenu_finds (b : Bindings) (h : b.menu.Numbered) (id : Datum) :
    Finds (b.matchMenu id) ((id.index?.bind (b.menu.items[·]?)).bind (·.label)) id.isScalar := by
  unfold matchMenu Datum.index?
  cases hl : id.lookup with
  | nowhere => exact .inl rfl
  | unfit =>
    refine .inr ⟨rfl, rfl, ?_⟩
    simpa [hl] using Datum.isScalar_iff (d := id)
  | value v =>
    left
    cases v with
    | int n =>
      simp only [h.find?]
      by_cases hn : 1 ≤ n
      · simp [hn]
      · simp [hn]
    | _ =>
      have hnone : b.menu.items.find? (fun _ => false) = none := by simp
      simp [hnone]

end GraphicsBatch
