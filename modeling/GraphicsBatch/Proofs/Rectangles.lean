import GraphicsBatch.Window.Dialog

/-!
# Where things are on the screen

Buttons stand side by side, headers too, and the members of a popup stand one below the other under the menu bar. However
wide the texts come out, no two of them have a place in common.
-/

namespace GraphicsBatch

/-! ## Rectangles -/

namespace Rect

/-- Two rectangles have no place in common. -/
def Apart (r s : Rect) : Prop := ∀ p : Pixel, r.contains p = true → s.contains p = false

/-- A place is in a rectangle, as far as rectangles can tell. -/
def Holds (r : Rect) (p : Pixel) : Prop := ∃ q, p.stored? = some q ∧ r.contains q = true

variable {r s : Rect} {p : Pixel}

theorem contains_iff : r.contains p = true ↔ r.left ≤ p.x ∧ p.x < r.right ∧ r.top ≤ p.y ∧ p.y < r.bottom := by
  simp [contains, and_assoc]

theorem contains_eq_false_iff : r.contains p = false ↔ ¬ (r.left ≤ p.x ∧ p.x < r.right ∧ r.top ≤ p.y ∧ p.y < r.bottom) := by
  rw [← Bool.not_eq_true, contains_iff]

theorem apart_of_right_le (h : r.right ≤ s.left) : r.Apart s := by
  intro p hp
  rw [contains_iff] at hp
  rw [contains_eq_false_iff]
  omega

theorem apart_of_bottom_le (h : r.bottom ≤ s.top) : r.Apart s := by
  intro p hp
  rw [contains_iff] at hp
  rw [contains_eq_false_iff]
  omega

theorem eq_of_contains {rects : List Rect} (h : rects.Pairwise Apart) {i j : Nat} (hi : rects[i]? = some r)
    (hj : rects[j]? = some s) (hr : r.contains p = true) (hs : s.contains p = true) : i = j := by
  obtain ⟨hilt, rfl⟩ := List.getElem?_eq_some_iff.mp hi
  obtain ⟨hjlt, rfl⟩ := List.getElem?_eq_some_iff.mp hj
  rw [List.pairwise_iff_getElem] at h
  rcases Nat.lt_trichotomy i j with hlt | heq | hgt
  · rw [h i j hilt hjlt hlt p hr] at hs
    cases hs
  · exact heq
  · rw [h j i hjlt hilt hgt p hs] at hr
    cases hr

end Rect

namespace Window

/-! ## Buttons -/

theorem length_buttons (window : Rect) (f : Font) (message caption : Value) (count : Nat) :
    (dialogLayout window f message caption count).buttons.length = count := by
  simp only [dialogLayout, List.length_map, List.length_range]

theorem buttons_apart (window : Rect) (f : Font) (message caption : Value) (count : Nat) :
    (dialogLayout window f message caption count).buttons.Pairwise Rect.Apart := by
  simp only [dialogLayout]
  rw [List.pairwise_map]
  refine List.pairwise_lt_range.imp ?_
  intro i j hlt
  apply Rect.apart_of_right_le
  unfold Rect.right buttonWidth dialogPadding
  dsimp only
  omega

/-! ## The menu bar -/

theorem entryWidth_nonneg (f : Font) (name : Value) : 0 ≤ entryWidth f name := by
  unfold entryWidth menuPadding
  omega

theorem mem_headerRects {f : Font} {left : Int} {menu : Menu} {r : Rect} (h : r ∈ headerRects f left menu) :
    left ≤ r.left ∧ r.top = 0 ∧ r.height = menuBarHeight := by
  induction menu generalizing left with
  | nil => cases h
  | cons p menu ih =>
    have hwidth := entryWidth_nonneg f p.item.name
    rcases List.mem_cons.mp h with rfl | h
    · exact ⟨Int.le_refl _, rfl, rfl⟩
    · obtain ⟨hleft, hbar⟩ := ih h
      exact ⟨by omega, hbar⟩

theorem headerRects_apart (f : Font) (left : Int) (menu : Menu) : (headerRects f left menu).Pairwise Rect.Apart := by
  induction menu generalizing left with
  | nil => exact .nil
  | cons p menu ih => exact .cons (fun r hr => Rect.apart_of_right_le (mem_headerRects hr).1) (ih _)

/-! ## Popups -/

theorem memberHeight_nonneg (m : Member) : 0 ≤ memberHeight m := by
  cases m <;> simp [memberHeight, menuSeparatorHeight, menuItemHeight]

theorem mem_stackRects {left width top : Int} {members : List Member} {r : Rect}
    (h : r ∈ stackRects left width top members) : top ≤ r.top := by
  induction members generalizing top with
  | nil => cases h
  | cons m members ih =>
    have hheight := memberHeight_nonneg m
    rcases List.mem_cons.mp h with rfl | h
    · exact Int.le_refl _
    · have htop := ih h
      omega

theorem stackRects_apart (left width top : Int) (members : List Member) :
    (stackRects left width top members).Pairwise Rect.Apart := by
  induction members generalizing top with
  | nil => exact .nil
  | cons m members ih => exact .cons (fun r hr => Rect.apart_of_bottom_le (mem_stackRects hr)) (ih _)

/-- The members of a popup are under the menu bar, so that they are apart from the headers. -/
theorem menuRects_apart (f : Font) (menu : Menu) {header : Rect} (hheader : header ∈ headerRects f 0 menu)
    (members : List Member) : (headerRects f 0 menu ++ memberRects f header members).Pairwise Rect.Apart := by
  refine List.pairwise_append.mpr ⟨headerRects_apart f 0 menu, stackRects_apart _ _ _ members, ?_⟩
  intro r hr s hs
  apply Rect.apart_of_bottom_le
  obtain ⟨-, htop, hheight⟩ := mem_headerRects hr
  obtain ⟨-, htop', hheight'⟩ := mem_headerRects hheader
  have hbelow := mem_stackRects hs
  unfold Rect.bottom at hbelow ⊢
  omega

/-- Places depend on how wide texts are, and on nothing else about a font. -/
theorem headerRects_congr {f f' : Font} (h : f.widthOf = f'.widthOf) (left : Int) (menu : Menu) :
    headerRects f left menu = headerRects f' left menu := by
  induction menu generalizing left with
  | nil => rfl
  | cons popup menu ih => simp only [headerRects, entryWidth, h, ih]

theorem memberRects_congr {f f' : Font} (h : f.widthOf = f'.widthOf) (header : Rect) (members : List Member) :
    memberRects f header members = memberRects f' header members := by
  simp only [memberRects, entryWidth, h]

end Window

end GraphicsBatch
