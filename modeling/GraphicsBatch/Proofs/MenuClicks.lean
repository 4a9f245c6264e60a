import GraphicsBatch.Proofs.Closing
import GraphicsBatch.Proofs.Popups

/-!
# Clicks on the menu

No two headers and members have a place in common. So a click on an entry is a click on that entry alone, and it leads to
the label that the program gave to it.
-/

namespace GraphicsBatch

/-! ## Where entries are -/

theorem Rect.Apart.not_holds {r s : Rect} (h : r.Apart s) {p : Pixel} (hr : r.Holds p) : ¬ s.Holds p := by
  rintro ⟨q', hq', hs⟩
  obtain ⟨q, hq, hr⟩ := hr
  obtain rfl : q = q' := Option.some.inj (hq.symm.trans hq')
  rw [h q hr] at hs
  cases hs

namespace Window

namespace Situation

/-- The font that menus are measured with. -/
def menuType (s : Situation) : Font := s.panel.world.display.metrics.font 0 ⟨.nothing, menuTextHeight, false, false⟩

def headerPlaces (s : Situation) : List Rect := headerRects s.menuType 0 s.panel.menu

def memberPlaces (s : Situation) (header : Rect) (popup : Popup) : List Rect :=
  memberRects s.menuType header popup.members

/-- A place is on the header of a popup. -/
def OnHeader (s : Situation) (p : Pixel) (index : Nat) (popup : Popup) : Prop :=
  s.panel.menu[index]? = some popup ∧ ∃ r, s.headerPlaces[index]? = some r ∧ r.Holds p

/-- A place is on a member of the open popup: an entry, or a line between entries. -/
inductive OnMember (s : Situation) (p : Pixel) (member : Member) : Prop where
  | intro {index k : Nat} {popup : Popup} {header r : Rect} : s.openPopup = some index →
      s.panel.menu[index]? = some popup → s.headerPlaces[index]? = some header → popup.members[k]? = some member →
      (s.memberPlaces header popup)[k]? = some r → r.Holds p → OnMember s p member

def withPopup (openPopup : Option Nat) (s : Situation) : Situation := { s with openPopup }

end Situation

/-! ## Measuring -/

theorem run_forM_still {α : Type} {xs : List α} {k : α → Draw Unit} {w : Window}
    (h : ∀ x ∈ xs, (k x).run.run w = (.ok (), w)) : (xs.forM k).run.run w = (.ok (), w) := by
  induction xs with
  | nil => rfl
  | cons x xs ih =>
    change (k x >>= fun _ => xs.forM k).run.run w = _
    rw [run_bind, h x List.mem_cons_self]
    exact ih fun x' hx' => h x' (List.mem_cons_of_mem _ hx')

theorem run_menuFont (w : Window) : ∃ f w', menuFont.run.run w = (.ok f, w') ∧ w'.situation = w.situation ∧
    f.widthOf = w.situation.menuType.widthOf := ⟨_, _, rfl, rfl, rfl⟩

theorem run_headers {w : Window} (hnames : w.situation.panel.menu.Measurable) :
    ∃ w', headers.run.run w = (.ok w.situation.headerPlaces, w') ∧ w'.situation = w.situation := by
  obtain ⟨f, w₁, hfont, hw₁, hwidth⟩ := run_menuFont w
  have hmenu : w₁.panel.menu = w.situation.panel.menu := congrArg (·.panel.menu) hw₁
  have hmeasure : (w₁.panel.menu.forM fun p => measurable p.item.name).run.run w₁ = (.ok (), w₁) := by
    refine run_forM_still fun popup hpopup => run_measurable ?_ w₁
    exact hnames popup.item (List.mem_flatMap.mpr ⟨popup, hmenu ▸ hpopup, List.mem_cons_self⟩)
  refine ⟨w₁, ?_, hw₁⟩
  unfold headers
  rw [run_bind, hfont]
  dsimp only
  rw [run_get_bind, run_bind, hmeasure]
  dsimp only
  rw [headerRects_congr hwidth, hmenu]
  rfl

theorem run_popupRects {w : Window} (hnames : w.situation.panel.menu.Measurable) {index : Nat} {popup : Popup}
    {header : Rect} (hpopup : w.situation.panel.menu[index]? = some popup)
    (hheader : w.situation.headerPlaces[index]? = some header) :
    ∃ w', (popupRects index).run.run w = (.ok (popup.members.zip (w.situation.memberPlaces header popup)), w') ∧
      w'.situation = w.situation := by
  obtain ⟨f, w₁, hfont, hw₁, hwidth⟩ := run_menuFont w
  obtain ⟨w₂, hheaders, hw₂⟩ := run_headers (w := w₁) (hw₁ ▸ hnames)
  rw [hw₁] at hheaders
  have hsame : w₂.situation = w.situation := hw₂.trans hw₁
  have hmenu : w₂.panel.menu = w.situation.panel.menu := congrArg (·.panel.menu) hsame
  have hmeasure : (popup.members.forM fun m => m.elim (return ()) fun item => measurable item.name).run.run w₂ =
      (.ok (), w₂) := by
    refine run_forM_still fun m hm => ?_
    cases m with
    | none => rfl
    | some item =>
      refine run_measurable (hnames item ?_) w₂
      have hitem : item ∈ popup.members.filterMap id := List.mem_filterMap.mpr ⟨some item, hm, rfl⟩
      exact List.mem_flatMap.mpr ⟨popup, List.mem_of_getElem? hpopup, List.mem_cons_of_mem _ hitem⟩
  refine ⟨w₂, ?_, hsame⟩
  unfold popupRects
  rw [run_bind, hfont]
  dsimp only
  rw [run_bind, hheaders]
  dsimp only
  rw [run_get_bind, hmenu, hheader, hpopup]
  dsimp only
  rw [run_bind, hmeasure]
  dsimp only
  rw [memberRects_congr hwidth]
  rfl

/-! ## Finding what is clicked on -/

section

variable {p : Pixel}

theorem hit_of_holds {r : Rect} (h : r.Holds p) : hit r p = .ok true := by
  obtain ⟨q, hq, hr⟩ := h
  simp only [hit, hq, hr]

theorem hit_of_not_holds (hp : p.stored?.isSome = true) {r : Rect} (h : ¬ r.Holds p) : hit r p = .ok false := by
  obtain ⟨q, hq⟩ := Option.isSome_iff_exists.mp hp
  have hr : r.contains q = false := by
    rw [← Bool.not_eq_true]
    exact fun hr => h ⟨q, hq, hr⟩
  simp only [hit, hq, hr]

theorem clickedEntry_none (hp : p.stored?.isSome = true) {members : List (Member × Rect)}
    (h : ∀ item r, (some item, r) ∈ members → ¬ r.Holds p) : clickedEntry p members = .ok none := by
  induction members with
  | nil => rfl
  | cons x members ih =>
    have hrest := ih fun item r hr => h item r (List.mem_cons_of_mem _ hr)
    obtain ⟨_ | item, r⟩ := x
    · exact hrest
    · simp only [clickedEntry, hit_of_not_holds hp (h item r List.mem_cons_self)]
      exact hrest

theorem clickedEntry_eq {members : List Member} {rects : List Rect} (hapart : rects.Pairwise Rect.Apart) {k : Nat}
    {member : Member} {r : Rect} (hmember : members[k]? = some member) (hrect : rects[k]? = some r) (hr : r.Holds p) :
    clickedEntry p (members.zip rects) = .ok member := by
  have hp : p.stored?.isSome = true := by
    obtain ⟨q, hq, -⟩ := hr
    exact Option.isSome_of_eq_some hq
  induction members generalizing rects k with
  | nil => cases hmember
  | cons member' members ih =>
    cases rects with
    | nil => cases hrect
    | cons r' rects =>
      rw [List.pairwise_cons] at hapart
      cases k with
      -- A separator has no answer of its own, and no other entry is hit.
      | zero =>
        cases hmember
        cases hrect
        cases member with
        | none =>
          change clickedEntry p (members.zip rects) = .ok none
          exact clickedEntry_none hp fun item s hs => (hapart.1 s (List.of_mem_zip hs).2).not_holds hr
        | some item =>
          simp only [List.zip_cons_cons, clickedEntry, hit_of_holds hr]
          rfl
      | succ k =>
        have hrest := ih hapart.2 hmember hrect
        have hmiss : ¬ r'.Holds p := fun hr' => (hapart.1 r (List.mem_of_getElem? hrect)).not_holds hr' hr
        cases member' with
        | none => exact hrest
        | some item =>
          simp only [List.zip_cons_cons, clickedEntry, hit_of_not_holds hp hmiss]
          exact hrest

theorem clickHeaders_none (hp : p.stored?.isSome = true) {entries : List (Nat × Popup × Rect)}
    (h : ∀ x ∈ entries, ¬ x.2.2.Holds p) (w : Window) : (clickHeaders p entries).run.run w = (.ok none, w) := by
  induction entries with
  | nil => rfl
  | cons x entries ih =>
    obtain ⟨index, popup, r⟩ := x
    rw [clickHeaders, hit_of_not_holds hp (h _ List.mem_cons_self), run_lift_bind]
    exact ih fun x' hx' => h x' (List.mem_cons_of_mem _ hx')

theorem clickHeaders_eq {entries : List (Nat × Popup × Rect)} (hapart : (entries.map (·.2.2)).Pairwise Rect.Apart)
    {index : Nat} {popup : Popup} {r : Rect} (hentry : (index, popup, r) ∈ entries) (hr : r.Holds p) (w : Window) :
    (clickHeaders p entries).run.run w =
      if popup.members.isEmpty then (.ok (some (select popup.item.id)), w)
      else (.ok none, { w with openPopup := some index }) := by
  have hp : p.stored?.isSome = true := by
    obtain ⟨q, hq, -⟩ := hr
    exact Option.isSome_of_eq_some hq
  induction entries with
  | nil => cases hentry
  | cons x entries ih =>
    rw [List.map_cons, List.pairwise_cons] at hapart
    obtain ⟨index', popup', r'⟩ := x
    rcases List.mem_cons.mp hentry with heq | hentry
    · cases heq
      have hrest : ∀ x ∈ entries, ¬ x.2.2.Holds p := fun x hx => (hapart.1 _ (List.mem_map_of_mem hx)).not_holds hr
      rw [clickHeaders, hit_of_holds hr, run_lift_bind, if_pos rfl]
      split
      · rfl
      · exact clickHeaders_none hp hrest _
    · have hmiss : ¬ r'.Holds p := fun hr' => (hapart.1 r (List.mem_map_of_mem hentry)).not_holds hr' hr
      rw [clickHeaders, hit_of_not_holds hp hmiss, run_lift_bind]
      exact ih hapart.2 hentry

end

/-! ## Clicks -/

namespace Situation

variable {s : Situation} {p : Pixel}

theorem headerPlaces_apart (s : Situation) : s.headerPlaces.Pairwise Rect.Apart := headerRects_apart _ _ _

theorem places_apart {index : Nat} {header : Rect} (hheader : s.headerPlaces[index]? = some header) (popup : Popup) :
    (s.headerPlaces ++ s.memberPlaces header popup).Pairwise Rect.Apart :=
  menuRects_apart _ _ (List.mem_of_getElem? hheader) _

theorem OnMember.not_onHeader {member : Member} (h : s.OnMember p member) (index : Nat) (popup : Popup) :
    ¬ s.OnHeader p index popup := by
  rintro ⟨-, r, hr, hin⟩
  obtain ⟨-, -, hheader, -, hr', hin'⟩ := h
  obtain ⟨-, -, hapart⟩ := List.pairwise_append.mp (places_apart hheader ‹Popup›)
  exact (hapart _ (List.mem_of_getElem? hr) _ (List.mem_of_getElem? hr')).not_holds hin hin'

theorem OnMember.unique {member member' : Member} (h : s.OnMember p member) (h' : s.OnMember p member') :
    member = member' := by
  obtain @⟨index, k, popup, header, r, hopen, hpopup, hheader, hmember, hr, hin⟩ := h
  obtain ⟨hopen', hpopup', hheader', hmember', hr', hin'⟩ := h'
  obtain rfl := Option.some.inj (hopen.symm.trans hopen')
  obtain rfl := Option.some.inj (hpopup.symm.trans hpopup')
  obtain rfl := Option.some.inj (hheader.symm.trans hheader')
  obtain ⟨-, hapart, -⟩ := List.pairwise_append.mp (places_apart hheader popup)
  obtain ⟨q, hq, hin⟩ := hin
  obtain ⟨q', hq', hin'⟩ := hin'
  obtain rfl := Option.some.inj (hq.symm.trans hq')
  obtain rfl := Rect.eq_of_contains hapart hr hr' hin hin'
  exact Option.some.inj (hmember.symm.trans hmember')

end Situation

theorem map_headers {menu : Menu} {rects : List Rect} (h : rects.length = menu.length) :
    ((menu.zip rects).zipIdx.map (fun (x, i) => (i, x))).map (·.2.2) = rects := by
  rw [List.map_map]
  change (menu.zip rects).zipIdx.map (Prod.snd ∘ Prod.fst) = rects
  rw [← List.map_map, List.zipIdx_map_fst, List.map_snd_zip (Nat.le_of_eq h)]

section

variable {p : Pixel} {w : Window} (hw : w.situation.Presentable)

include hw

theorem barClick_header {index : Nat} {popup : Popup} (h : w.situation.OnHeader p index popup) :
    (popup.members = [] →
      ∃ w', (barClick p w.situation.panel.menu).run.run w = (.ok (some (select popup.item.id)), w') ∧
        w'.situation = w.situation) ∧
    (popup.members ≠ [] → ∃ w', (barClick p w.situation.panel.menu).run.run w = (.ok none, w') ∧
      w'.situation = w.situation.withPopup (some index)) := by
  obtain ⟨hpopup, r, hrect, hin⟩ := h
  obtain ⟨w₁, hheaders, hw₁⟩ := run_headers hw.names
  have hlength : w.situation.headerPlaces.length = w.situation.panel.menu.length := Draws.length_headerRects _ _ _
  have hapart := w.situation.headerPlaces_apart
  rw [← map_headers hlength] at hapart
  have hclick := clickHeaders_eq hapart (mem_headers.mpr ⟨hpopup, hrect⟩) hin w₁
  unfold barClick
  rw [run_bind, hheaders]
  dsimp only
  rw [run_bind, hclick]
  refine ⟨fun hmembers => ?_, fun hmembers => ?_⟩
  · rw [if_pos (List.isEmpty_iff.mpr hmembers)]
    exact ⟨w₁, rfl, hw₁⟩
  · rw [if_neg (mt List.isEmpty_iff.mp hmembers)]
    have hopened : { w₁ with openPopup := some index }.situation = w.situation.withPopup (some index) := by
      rw [← hw₁]
      rfl
    -- The popup that opens is one of the menu, so the window can be drawn with it.
    have hfine : (w.situation.withPopup (some index)).Presentable := by
      refine ⟨hw.names, fun i hi => ?_⟩
      obtain rfl := Option.some.inj hi
      exact (List.getElem?_eq_some_iff.mp hpopup).1
    obtain ⟨w', hrefresh, hw'⟩ := refresh_ok (hopened ▸ hfine)
    refine ⟨w', ?_, hw'.trans hopened⟩
    dsimp only
    rw [run_bind, hrefresh]
    rfl

theorem barClick_beside (hp : p.stored?.isSome = true) (h : ∀ index popup, ¬ w.situation.OnHeader p index popup) :
    ∃ w', (barClick p w.situation.panel.menu).run.run w = (.ok none, w') ∧ w'.situation = w.situation := by
  obtain ⟨w₁, hheaders, hw₁⟩ := run_headers hw.names
  obtain ⟨w', hrefresh, hw'⟩ := refresh_ok (w := w₁) (hw₁ ▸ hw)
  refine ⟨w', ?_, hw'.trans hw₁⟩
  unfold barClick
  rw [run_bind, hheaders]
  dsimp only
  rw [run_bind, clickHeaders_none hp]
  · dsimp only
    rw [run_bind, hrefresh]
    rfl
  · rintro ⟨index, popup, r⟩ hx hin
    obtain ⟨hpopup, hrect⟩ := mem_headers.mp hx
    exact h index popup ⟨hpopup, r, hrect, hin⟩

theorem menuClick_popup {index : Nat} {popup : Popup} {header : Rect} (hopen : w.situation.openPopup = some index)
    (hpopup : w.situation.panel.menu[index]? = some popup) (hheader : w.situation.headerPlaces[index]? = some header)
    {found : Option MenuItem}
    (hfound : clickedEntry p (popup.members.zip (w.situation.memberPlaces header popup)) = .ok found) :
    ∃ w₁, w₁.situation = w.situation.withPopup none ∧ (menuClick p).run.run w =
      (found.elim (barClick p w.situation.panel.menu) fun item => do
        refresh
        return some (select item.id)).run.run w₁ := by
  have hlt : ¬ w.panel.menu.length ≤ index := Nat.not_le.mpr (hw.popup index hopen)
  obtain ⟨w₁, hrects, hw₁⟩ : ∃ w₁, (popupRects index).run.run { w with openPopup := none } =
      (.ok (popup.members.zip (w.situation.memberPlaces header popup)), w₁) ∧
      w₁.situation = w.situation.withPopup none :=
    run_popupRects (w := { w with openPopup := none }) hw.names hpopup hheader
  have hopen' : w.openPopup = some index := hopen
  refine ⟨w₁, hw₁, ?_⟩
  unfold menuClick
  rw [run_get_bind, hopen']
  dsimp only
  change (if w.panel.menu.length ≤ index then _ else _ : Draw _).run.run { w with openPopup := none } = _
  rw [if_neg hlt, run_bind, hrects]
  dsimp only
  rw [hfound, run_lift_bind]
  cases found <;> rfl

theorem menuClick_member {item : MenuItem} (h : w.situation.OnMember p (some item)) :
    ∃ w', (menuClick p).run.run w = (.ok (some (select item.id)), w') ∧ w'.situation = w.situation.withPopup none := by
  obtain ⟨hopen, hpopup, hheader, hmember, hrect, hin⟩ := h
  obtain ⟨-, hapart, -⟩ := List.pairwise_append.mp (Situation.places_apart hheader ‹Popup›)
  obtain ⟨w₁, hw₁, hrun⟩ := menuClick_popup hw hopen hpopup hheader (clickedEntry_eq hapart hmember hrect hin)
  obtain ⟨w', hrefresh, hw'⟩ := refresh_ok (w := w₁) (hw₁ ▸ ⟨hw.names, nofun⟩)
  refine ⟨w', ?_, hw'.trans hw₁⟩
  rw [hrun, Option.elim_some, run_bind, hrefresh]
  rfl

theorem menuClick_other (hp : p.stored?.isSome = true) (h : ∀ item, ¬ w.situation.OnMember p (some item)) :
    ∃ w₁, w₁.situation = w.situation.withPopup none ∧
      (menuClick p).run.run w = (barClick p w.situation.panel.menu).run.run w₁ := by
  cases hopen : w.situation.openPopup with
  | none =>
    refine ⟨w, ?_, ?_⟩
    · rw [Situation.withPopup, ← hopen]
    · have hopen' : w.openPopup = none := hopen
      unfold menuClick
      rw [run_get_bind, hopen']
      rfl
  | some index =>
    have hlt : index < w.situation.panel.menu.length := hw.popup index hopen
    have hlength : w.situation.headerPlaces.length = w.situation.panel.menu.length := Draws.length_headerRects _ _ _
    obtain ⟨popup, hpopup⟩ : ∃ popup, w.situation.panel.menu[index]? = some popup := ⟨_, List.getElem?_eq_getElem hlt⟩
    obtain ⟨header, hheader⟩ : ∃ header, w.situation.headerPlaces[index]? = some header :=
      ⟨_, List.getElem?_eq_getElem (hlength ▸ hlt)⟩
    refine menuClick_popup hw hopen hpopup hheader (clickedEntry_none hp ?_)
    intro item r hmem hin
    obtain ⟨k, hk⟩ := List.getElem?_of_mem hmem
    obtain ⟨hmember, hrect⟩ := List.getElem?_zip_eq_some.mp hk
    exact h item ⟨hopen, hpopup, hheader, hmember, hrect, hin⟩

end

theorem eventOf_click {p : Pixel} {w : Window} (h : w.openPopup.isSome = true ∨ p.y < w.menuHeight) (button : Int) :
    (eventOf (.click p button)).run.run w = (menuClick p).run.run w := by
  unfold eventOf
  rw [run_get_bind]
  dsimp only
  rw [if_pos (by simpa using h)]

/-- While a popup is open, no click is one for the program. -/
theorem click_kept {p : Pixel} {w : Window} (hopen : w.openPopup.isSome = true) {button : Int} {e : Event}
    (h : ((eventOf (.click p button)).run.run w).1 = .ok (some e)) : e.kind ≠ .mouseClick := by
  rw [eventOf_click (.inl hopen)] at h
  obtain ⟨id, rfl⟩ := menuClick_selects p w _ h e rfl
  simp [select]

theorem Situation.OnHeader.in_bar {w : Window} {p : Pixel} {index : Nat} {popup : Popup}
    (h : w.situation.OnHeader p index popup) (hp : p.stored? = some p) : p.y < w.menuHeight := by
  obtain ⟨hpopup, r, hrect, q, hq, hin⟩ := h
  obtain rfl := Option.some.inj (hp.symm.trans hq)
  obtain ⟨-, htop, hheight⟩ := mem_headerRects (List.mem_of_getElem? hrect)
  have hmenu : w.panel.menu.isEmpty = false :=
    List.isEmpty_eq_false_iff.mpr (List.ne_nil_of_mem (List.mem_of_getElem? hpopup))
  rw [Rect.contains_iff] at hin
  unfold menuHeight
  rw [hmenu]
  unfold Rect.bottom at hin
  simp only [Bool.false_eq_true, if_false]
  omega

section

variable {p : Pixel} {w : Window} (hw : w.situation.Presentable) (button : Int)

include hw

theorem click_member {item : MenuItem} (h : w.situation.OnMember p (some item)) :
    ∃ w', (eventOf (.click p button)).run.run w = (.ok (some (select item.id)), w') ∧
      w'.situation = w.situation.withPopup none := by
  have hopen : w.openPopup.isSome = true := by
    obtain ⟨hopen, -⟩ := h
    exact Option.isSome_of_eq_some hopen
  rw [eventOf_click (.inl hopen)]
  exact menuClick_member hw h

theorem click_header {index : Nat} {popup : Popup} (h : w.situation.OnHeader p index popup)
    (hp : p.stored? = some p ∨ w.openPopup.isSome = true) :
    (popup.members = [] → ∃ w', (eventOf (.click p button)).run.run w = (.ok (some (select popup.item.id)), w') ∧
      w'.situation = w.situation.withPopup none) ∧
    (popup.members ≠ [] → ∃ w', (eventOf (.click p button)).run.run w = (.ok none, w') ∧
      w'.situation = w.situation.withPopup (some index)) := by
  have hstored : p.stored?.isSome = true := by
    obtain ⟨-, r, -, q, hq, -⟩ := h
    exact Option.isSome_of_eq_some hq
  obtain ⟨w₁, hw₁, hrun⟩ := menuClick_other hw hstored fun item hmember => hmember.not_onHeader _ _ h
  have hheader : w₁.situation.OnHeader p index popup := by
    rw [hw₁]
    exact h
  have hbar := barClick_header (hw₁ ▸ ⟨hw.names, nofun⟩) hheader
  rw [eventOf_click (hp.symm.imp_right h.in_bar), hrun]
  rw [hw₁] at hbar
  exact hbar

theorem click_beside (hopen : w.openPopup.isSome = true) (hp : p.stored?.isSome = true)
    (hmember : ∀ item, ¬ w.situation.OnMember p (some item))
    (hheader : ∀ index popup, ¬ w.situation.OnHeader p index popup) :
    ∃ w', (eventOf (.click p button)).run.run w = (.ok none, w') ∧ w'.situation = w.situation.withPopup none := by
  obtain ⟨w₁, hw₁, hrun⟩ := menuClick_other hw hp hmember
  have hbar := barClick_beside (w := w₁) (hw₁ ▸ ⟨hw.names, nofun⟩) hp ?_
  · rw [eventOf_click (.inl hopen), hrun]
    rw [hw₁] at hbar
    exact hbar
  · rw [hw₁]
    exact hheader

end

end Window

namespace Engine

/-! ## Entries that are chosen -/

variable {g : Engine}

/-- An entry of the menu of a program that waits is chosen: the program runs on from its label, if there is one. -/
def Chooses (g : Engine) (s : State) (item : MenuItem) : Prop :=
  ∀ (w : Window) (fuel : Nat), match item.label with
    | some l => g.Jumps Window.host fuel (Window.select item.id) ⟨s, w⟩ l s.vars
    | none => g.resume Window.host fuel (Window.select item.id) ⟨s, w⟩ = (⟨s, w⟩, .ok ())

theorem chooses_of_mem {s : State} (hs : g.Sound s) (hwait : s.status = .suspended)
    (hnumbered : s.bindings.menu.Numbered) {item : MenuItem} (hitem : item ∈ s.bindings.menu.items) : g.Chooses s item := by
  intro w fuel
  obtain ⟨k, hk⟩ := List.getElem?_of_mem hitem
  have hid := hnumbered k item hk
  have hread : (Window.select item.id).read = .input (.menu (.int item.id)) := rfl
  have hleads : g.Leads Window.host fuel _ ⟨s, w⟩ _ _ := resume_menu hs hwait hread hnumbered
  have hindex : (Datum.int item.id).index? = some k := by
    rw [hid]
    simp [Datum.index?, Datum.lookup]
  rw [hindex, Option.bind_some, hk, Option.bind_some] at hleads
  cases hlabel : item.label with
  | some l =>
    rw [hlabel] at hleads
    exact hleads
  | none =>
    rw [hlabel] at hleads
    rcases hleads with hstay | ⟨hfits, -⟩
    · exact hstay
    · cases hfits

/-- Clicks choose entries, open headers or close the popup that is open, and none is passed on while it is. -/
theorem menu_clicks_choose {source : String} {pedantic : Bool} {p : Program}
    (hp : Program.parse source pedantic = .ok p) (maxStack : Int) (trace : Bool) {m : Machine Window}
    (hm : Underway ⟨p, maxStack, trace⟩ m) (hwait : m.state.status = .suspended) :
    let g : Engine := ⟨p, maxStack, trace⟩
    let s := m.world.situation
    let click (q : Pixel) (button : Int) := (Window.eventOf (.click q button)).run.run m.world
    (s.panel.menu = m.state.bindings.menu ∧ p.Offers s.panel.menu ∧
      ∀ st (m₁ m₂ : Machine Window), g.CarriesOut Window.host st m₁ m₂ →
        st.action.Leaves m₁.state.bindings.menu m₂.state.bindings.menu) ∧
    s.Unfolded ∧
    (∀ (index : Nat) (header : Rect) (popup : Popup), s.headerPlaces[index]? = some header →
      (s.headerPlaces ++ s.memberPlaces header popup).Pairwise Rect.Apart) ∧
    (∀ (q : Pixel) (button : Int),
      (∀ item, s.OnMember q (some item) →
        (∃ w, click q button = (.ok (some (Window.select item.id)), w) ∧ w.situation = s.withPopup none) ∧
        g.Chooses m.state item) ∧
      (∀ index popup, s.OnHeader q index popup → q.stored? = some q ∨ s.openPopup.isSome = true →
        (popup.members = [] →
          (∃ w, click q button = (.ok (some (Window.select popup.item.id)), w) ∧ w.situation = s.withPopup none) ∧
          g.Chooses m.state popup.item) ∧
        (popup.members ≠ [] →
          ∃ w, click q button = (.ok none, w) ∧ w.situation = s.withPopup (some index))) ∧
      (s.openPopup.isSome = true →
        (s.OnMember q none ∨ q.stored?.isSome = true ∧ (∀ member, ¬ s.OnMember q member) ∧
          ∀ index popup, ¬ s.OnHeader q index popup) →
        ∃ w, click q button = (.ok none, w) ∧ w.situation = s.withPopup none) ∧
      (s.openPopup.isSome = true → ∀ e, (click q button).1 = .ok (some e) → e.kind ≠ .mouseClick)) := by
  obtain ⟨lines, hlines, rfl⟩ := Program.parse_eq_ofLines hp
  have wf := Program.ofLines_wellFormed hlines
  have horderly := hm.orderly wf
  have hbrowsing := hm.browsing wf
  have hmenu : m.world.situation.panel.menu = m.state.bindings.menu := congrArg Inputs.menu hbrowsing.attended.inputs
  have hw := horderly.window.presentable
  have hchooses : ∀ popup ∈ m.world.situation.panel.menu, ∀ item ∈ popup.item :: popup.members.filterMap id,
      Chooses ⟨.ofLines lines, maxStack, trace⟩ m.state item := by
    intro popup hpopup item hitem
    rw [hmenu] at hpopup
    exact chooses_of_mem horderly.sound hwait hbrowsing.numbered (List.mem_flatMap.mpr ⟨popup, hpopup, hitem⟩)
  refine ⟨⟨hmenu, hmenu ▸ hbrowsing.offers, ?_⟩, hbrowsing.unfolded, ?_, fun q button => ⟨?_, ?_, ?_, ?_⟩⟩
  · exact fun st m₁ m₂ hc => hc.leaves (wf.proper _ st hc.statement)
  · exact fun index header popup hheader => Window.Situation.places_apart hheader popup
  · intro item hmember
    refine ⟨Window.click_member hw button hmember, ?_⟩
    obtain ⟨-, hpopup, -, hitem, -, -⟩ := hmember
    refine hchooses _ (List.mem_of_getElem? hpopup) item (List.mem_cons_of_mem _ ?_)
    exact List.mem_filterMap.mpr ⟨some item, List.mem_of_getElem? hitem, rfl⟩
  · intro index popup hheader hq
    obtain ⟨hchoose, hopen⟩ := Window.click_header hw button hheader hq
    refine ⟨fun hmembers => ⟨hchoose hmembers, ?_⟩, hopen⟩
    exact hchooses popup (List.mem_of_getElem? hheader.1) _ List.mem_cons_self
  · rintro hopen (hline | ⟨hq, hmember, hheader⟩)
    · refine Window.click_beside hw button hopen ?_ ?_ hline.not_onHeader
      · obtain ⟨-, -, -, -, -, q', hq', -⟩ := hline
        exact Option.isSome_of_eq_some hq'
      · intro item hitem
        cases hline.unique hitem
    · exact Window.click_beside hw button hopen hq (fun item => hmember (some item)) hheader
  · exact fun hopen e he => Window.click_kept hopen he

def menuProgram : String :=
  "a: SetMenu(\"File\",IGNORE,\"New\",a,SEPARATOR,\"Quit\",IGNORE,ENDPOPUP,\"Go\",a,ENDPOPUP) WaitInput()"

def filePopup : Popup :=
  ⟨⟨1, .text "File", none⟩, [some ⟨2, .text "New", some "a"⟩, none, some ⟨3, .text "Quit", none⟩]⟩

/-- The first popup is open, and its first entry is clicked on. -/
theorem menu_clicks_choose_first :
    ∃ (p : Program) (m : Machine Window), Program.parse menuProgram false = .ok p ∧ Underway ⟨p, 10000, false⟩ m ∧
      m.state.status = .suspended ∧ m.world.situation.OnMember ⟨5, 30⟩ (some ⟨2, .text "New", some "a"⟩) ∧
      (∃ w, (Window.eventOf (.click ⟨5, 30⟩ 1)).run.run m.world = (.ok (some (Window.select 2)), w) ∧
        w.situation = m.world.situation.withPopup none) ∧
      Chooses ⟨p, 10000, false⟩ m.state ⟨2, .text "New", some "a"⟩ := by
  have hrun : (Program.parse menuProgram false).toOption.map (fun p =>
      (Window.open {} (.text "c") none).toOption.map fun w =>
        let x := run ⟨p, 10000, false⟩ Window.host 9 ⟨{}, w⟩
        let y := Window.round.run.run (x.1.world.mapDisplay fun d =>
          { d with posted := d.posted ++ [.click ⟨5, 5⟩ 1], events := [] })
        decide (x.2 = .ok () ∧ x.1.state.status = .suspended ∧ y.1.toOption.map Option.isNone = some true ∧
          y.2.situation.openPopup = some 0 ∧ y.2.situation.panel.menu[0]? = some filePopup ∧
          y.2.situation.headerPlaces[0]? = some ⟨0, 0, 56, 22⟩ ∧
          (y.2.situation.memberPlaces ⟨0, 0, 56, 22⟩ filePopup)[0]? = some ⟨0, 22, 56, 22⟩)) =
      some (some true) := by decide +kernel
  obtain ⟨p, hparse, hrun⟩ := Except.exists_of_map_toOption hrun
  obtain ⟨w, hopen, hrun⟩ := Except.exists_of_map_toOption hrun
  obtain ⟨hok, hwait, hnone, hindex, hpopup, hheader, hrect⟩ := of_decide_eq_true hrun
  have hclock : Binary64.IsTime w.panel.world.clock := by
    rw [Window.open_clock hopen]
    exact Binary64.isTime_of_decode (x := 0) rfl (by decide)
  have hstart : Underway ⟨p, 10000, false⟩ ⟨{}, w⟩ := .start hopen (by simp) (by simp)
  generalize hx : run ⟨p, 10000, false⟩ Window.host 9 ⟨{}, w⟩ = x at hok hwait hnone hindex hpopup hheader hrect
  obtain ⟨m, r⟩ := x
  obtain rfl : r = .ok () := hok
  obtain ⟨hm, -⟩ := hstart.run hclock hx
  have hqueue : ∀ e, e ∈ [.click ⟨5, 5⟩ 1] ∨ e ∈ [] → DisplayEvent.Plausible e := by
    simp [DisplayEvent.Plausible]
    decide
  have hlate := hm.arrive _ _ hqueue
  generalize hy : Window.round.run.run (m.world.mapDisplay fun d =>
    { d with posted := d.posted ++ [.click ⟨5, 5⟩ 1], events := [] }) = y at hnone hindex hpopup hheader hrect
  obtain ⟨r, w₁⟩ := y
  obtain ⟨o, rfl, hempty⟩ := Except.exists_of_map_toOption hnone
  obtain rfl := Option.isNone_iff_eq_none.mp hempty
  have hidle := hlate.idle hwait hy
  have hmember : w₁.situation.OnMember ⟨5, 30⟩ (some ⟨2, .text "New", some "a"⟩) :=
    .intro hindex hpopup hheader (k := 0) rfl hrect ⟨⟨5, 30⟩, by decide, by decide⟩
  have hclick := ((menu_clicks_choose hparse 10000 false hidle hwait).2.2.2 ⟨5, 30⟩ 1).1 _ hmember
  exact ⟨p, _, hparse, hidle, hwait, hmember, hclick⟩

end Engine

end GraphicsBatch
