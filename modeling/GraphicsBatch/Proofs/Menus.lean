import GraphicsBatch.Proofs.ArgumentLists
import GraphicsBatch.Proofs.Spelled
import Mathlib.Data.List.Basic

/-!
# Menus survive flattening

A menu is a tree, and the arguments of `SetMenu` are its entries one behind the other. Building undoes flattening for
every menu whose entries are numbered in order, and the check lets only flattened menus through. So an argument list
that was accepted builds the one menu that it says.
-/

namespace GraphicsBatch

theorem State.resolve_eq_value {s : State} {a : Argument} (h : ∀ x, a.value ≠ .var x) : s.resolve a = a.value := by
  obtain ⟨kind, value⟩ := a
  cases value with
  | var x => exact absurd rfl (h x)
  | _ => cases kind <;> rfl

namespace Menu

/-! ## Numbers -/

/-- Entries are numbered from `k` on. -/
def CountsFrom (k : Nat) (is : List MenuItem) : Prop := is.map (·.id) = List.range' k is.length

@[simp] theorem countsFrom_cons {k : Nat} {i : MenuItem} {is : List MenuItem} :
    CountsFrom k (i :: is) ↔ i.id = k ∧ CountsFrom (k + 1) is := by
  simp [CountsFrom, List.range'_succ]

theorem CountsFrom.append {k : Nat} {is js : List MenuItem} (his : CountsFrom k is)
    (hjs : CountsFrom (k + is.length) js) : CountsFrom k (is ++ js) := by
  unfold CountsFrom at *
  rw [List.map_append, his, hjs, List.range'_append_1, List.length_append]

theorem CountsFrom.numbered {menu : Menu} (h : CountsFrom 1 menu.items) : menu.Numbered := by
  intro k i hk
  have hid : (menu.items.map (·.id))[k]? = some i.id := by rw [List.getElem?_map, hk]; rfl
  have hlt : k < menu.items.length := (List.getElem?_eq_some_iff.mp hk).1
  rw [h, List.getElem?_range' hlt] at hid
  have := Option.some.inj hid
  omega

theorem items_cons (p : Popup) (menu : Menu) :
    items (p :: menu) = p.item :: (p.members.filterMap id ++ menu.items) := rfl

/-! ## Building what was flattened -/

/-- No entry has a name that could be taken for a separator or for the end of a popup. -/
def Named (is : List MenuItem) : Prop := ∀ i ∈ is, ∀ t, i.name ≠ .token t

theorem labelOf_target (i : MenuItem) : ∃ target, i.values = [i.name, target] ∧ labelOf target = i.label := by
  refine ⟨_, rfl, ?_⟩
  cases i.label <;> rfl

theorem build_entry {k : Nat} {item i : MenuItem} {members : List Member} {vs : List Value} (hid : i.id = k)
    (hname : ∀ t, i.name ≠ .token t) :
    build k (some (item, members)) (i.values ++ vs) = build (k + 1) (some (item, some i :: members)) vs := by
  obtain ⟨target, hvalues, hlabel⟩ := labelOf_target i
  obtain ⟨_, name, label⟩ := i
  subst hid
  rw [hvalues, List.cons_append, List.cons_append, List.nil_append]
  dsimp only at hlabel hname ⊢
  cases name with
  | token t => exact absurd rfl (hname t)
  | _ => simp only [build, hlabel]

theorem build_members {k : Nat} {item : MenuItem} {filled members : List Member} {rest : Menu}
    (hrest : ∀ k, CountsFrom k rest.items → build k none (rest.flatMap Popup.values) = .ok rest)
    (hids : CountsFrom k (members.filterMap id ++ rest.items)) (hnames : Named (members.filterMap id)) :
    build k (some (item, filled))
        (members.flatMap memberValues ++ .token "ENDPOPUP" :: rest.flatMap Popup.values) =
      .ok (⟨item, filled.reverse ++ members⟩ :: rest) := by
  induction members generalizing k filled with
  | nil =>
    rw [List.append_nil]
    exact Except.bind_eq_ok.mpr ⟨rest, hrest k hids, rfl⟩
  | cons m members ih =>
    rw [List.flatMap_cons, List.append_assoc]
    cases m with
    | none =>
      rw [memberValues, List.singleton_append, build, ih hids hnames, List.reverse_cons, List.append_assoc]
      rfl
    | some i =>
      simp only [List.filterMap_cons, id, List.cons_append, countsFrom_cons] at hids hnames
      rw [memberValues, build_entry hids.1 (hnames i (by simp)), ih hids.2 fun j hj => hnames j (.tail _ hj),
        List.reverse_cons, List.append_assoc]
      rfl

theorem build_flatMap_values {menu : Menu} {k : Nat} (hids : CountsFrom k menu.items) (hnames : Named menu.items) :
    build k none (menu.flatMap Popup.values) = .ok menu := by
  induction menu generalizing k with
  | nil => rfl
  | cons p menu ih =>
    obtain ⟨target, hvalues, hlabel⟩ := labelOf_target p.item
    rw [items_cons] at hids hnames
    obtain ⟨hid, hids⟩ := countsFrom_cons.mp hids
    have hmembers : Named (p.members.filterMap id) := fun i hi => hnames i (by simp_all)
    have hrest : Named (items menu) := fun i hi => hnames i (by simp_all)
    rw [List.flatMap_cons, Popup.values, hvalues, List.append_assoc, List.append_assoc]
    simp only [List.cons_append, List.nil_append, build, hlabel]
    rw [build_members (fun k h => ih h hrest) hids hmembers, ← hid]
    rfl

/-! ## What the check lets through -/

theorem str_value {raw : Raw} {v : Value} (h : Slot.str.Reads raw v) : ∃ t, v = .text t := by
  cases h with
  | text => exact ⟨_, rfl⟩
  | _ => simp_all [Slot.str]

theorem token_value {raw : Raw} {v : Value} {t : String} (h : (Slot.token [t]).Reads raw v) : v = .token t := by
  cases h with
  | token _ hmem => simp_all [Slot.token]
  | _ => simp_all [Slot.token]

theorem menuLabel_value {raw : Raw} {v : Value} (h : Slot.menuLabel.Reads raw v) :
    (∃ l, v = .label l) ∨ v = .token "IGNORE" := by
  cases h with
  | label => exact .inl ⟨_, rfl⟩
  | token _ hmem => simp_all [Slot.menuLabel]
  | _ => simp_all [Slot.menuLabel]

/-- Entries that the check lets through are named by texts. -/
def TextNamed (is : List MenuItem) : Prop := ∀ i ∈ is, ∃ t, i.name = .text t

theorem TextNamed.named {is : List MenuItem} (h : TextNamed is) : Named is := by
  intro i hi t heq
  obtain ⟨s, hs⟩ := h i hi
  rw [hs] at heq
  cases heq

/-! The entries that arguments say can be numbered from any number on. -/

section

variable {xs : List RawArg} {as : List Argument}

theorem menuEntry_values (h : menuEntry xs as) (k : Nat) :
    ∃ i : MenuItem, i.id = k ∧ (∃ t, i.name = .text t) ∧ as.map (·.value) = i.values := by
  cases h with
  | cons hname h =>
    cases h with
    | cons hlabel h =>
      cases h
      obtain ⟨t, rfl⟩ := str_value hname
      obtain ⟨l, rfl⟩ | rfl := menuLabel_value hlabel
      · exact ⟨⟨k, .text t, some l⟩, rfl, ⟨t, rfl⟩, rfl⟩
      · exact ⟨⟨k, .text t, none⟩, rfl, ⟨t, rfl⟩, rfl⟩

theorem row_token_values {t : String} (h : Row [.token [t]] xs as) : as.map (·.value) = [.token t] := by
  cases h with
  | cons htoken h =>
    cases h
    rw [token_value htoken]
    rfl

theorem menuMembers_values (h : Repeats menuMember xs as) (k : Nat) :
    ∃ members : List Member, CountsFrom k (members.filterMap id) ∧ TextNamed (members.filterMap id) ∧
      as.map (·.value) = members.flatMap memberValues := by
  induction h generalizing k with
  | nil => exact ⟨[], rfl, by simp [TextNamed], rfl⟩
  | cons hfirst _ ih =>
    rcases hfirst with hseparator | hentry
    · obtain ⟨members, hids, hnames, hvalues⟩ := ih k
      exact ⟨none :: members, hids, hnames, by rw [List.map_append, row_token_values hseparator, hvalues]; rfl⟩
    · obtain ⟨i, hid, hname, hi⟩ := menuEntry_values hentry k
      obtain ⟨members, hids, hnames, hvalues⟩ := ih (k + 1)
      refine ⟨some i :: members, countsFrom_cons.mpr ⟨hid, hids⟩, ?_, by rw [List.map_append, hi, hvalues]; rfl⟩
      simpa [TextNamed, hname] using hnames

theorem menuPopups_values (h : Repeats menuPopup xs as) (k : Nat) :
    ∃ menu : Menu, CountsFrom k menu.items ∧ TextNamed menu.items ∧ as.map (·.value) = menu.flatMap Popup.values := by
  induction h generalizing k with
  | nil => exact ⟨[], rfl, by simp [TextNamed, items], rfl⟩
  | cons hpopup _ ih =>
    obtain ⟨hentry, ⟨hmembers, hclose⟩⟩ := hpopup
    obtain ⟨i, hid, hname, hi⟩ := menuEntry_values hentry k
    obtain ⟨members, hids, hnames, hvalues⟩ := menuMembers_values hmembers (k + 1)
    -- Separators take no number.
    obtain ⟨menu, hmenu, hmenuNames, hrest⟩ := ih (k + 1 + (members.filterMap id).length)
    refine ⟨⟨i, members⟩ :: menu, ?_, ?_, ?_⟩
    · exact countsFrom_cons.mpr ⟨hid, hids.append hmenu⟩
    · intro j hj
      rw [items_cons, List.mem_cons, List.mem_append] at hj
      rcases hj with rfl | hj | hj
      · exact hname
      · exact hnames j hj
      · exact hmenuNames j hj
    · rw [List.map_append, List.map_append, List.map_append, hi, hvalues, row_token_values hclose, hrest,
        List.flatMap_cons, Popup.values]
      simp only [List.append_assoc]

end

theorem ne_var_of_mem_values {i : MenuItem} {v : Value} (hname : ∃ t, i.name = .text t) (h : v ∈ i.values) (x : String) :
    v ≠ .var x := by
  obtain ⟨t, ht⟩ := hname
  unfold MenuItem.values at h
  rw [ht, List.mem_pair] at h
  rcases h with rfl | rfl
  · simp
  · cases i.label <;> simp

theorem ne_var_of_mem_flatMap_values {menu : Menu} (hnames : TextNamed menu.items) {v : Value}
    (h : v ∈ menu.flatMap Popup.values) (x : String) : v ≠ .var x := by
  obtain ⟨p, hp, h⟩ := List.mem_flatMap.mp h
  have hitems : ∀ i, i = p.item ∨ some i ∈ p.members → ∃ t, i.name = .text t := by
    intro i hi
    refine hnames i (List.mem_flatMap.mpr ⟨p, hp, ?_⟩)
    simpa using hi
  simp only [Popup.values, List.mem_append, List.mem_flatMap, List.mem_singleton] at h
  rcases h with (h | ⟨m, hm, h⟩) | rfl
  · exact ne_var_of_mem_values (hitems _ (.inl rfl)) h x
  · cases m with
    | none => simp_all [memberValues]
    | some i => exact ne_var_of_mem_values (hitems i (.inr hm)) h x
  · simp

end Menu

/-- An argument list that passes the check is its menu, flattened; entries are numbered from 1 and lead to their
labels. -/
theorem Menu.ofArgs_roundtrip :
    (∀ args endPos out, Command.setMenu.checkArguments args endPos = .ok out →
      ∃ menu, ofArgs (out.map (·.value)) = .ok menu ∧ menu.flatMap Popup.values = out.map (·.value) ∧
        (∀ s : State, out.map s.resolve = out.map (·.value)) ∧
        menu.items.map (·.id) = List.range' 1 menu.items.length ∧ (menu.items.map (·.id)).Nodup ∧
        ∀ (b : Bindings) (k : Int), (b.setMenu menu).matchMenu (.int k) =
          .ok (if 1 ≤ k then menu.items[(k - 1).toNat]?.bind (·.label) else none)) ∧
    ∀ menu : Menu, menu.items.map (·.id) = List.range' 1 menu.items.length →
      (∀ i ∈ menu.items, ∀ t, i.name ≠ .token t) → ofArgs (menu.flatMap Popup.values) = .ok menu := by
  refine ⟨fun args endPos out hout => ?_, fun menu hids hnames => build_flatMap_values hids hnames⟩
  have hpopups : Repeats menuPopup args out := ((Command.setMenu.decides args endPos).ok out).mp hout
  obtain ⟨menu, hids, hnames, hvalues⟩ := menuPopups_values hpopups 1
  refine ⟨menu, ?_, hvalues.symm, ?_, hids, ?_, ?_⟩
  · rw [hvalues]
    exact build_flatMap_values hids hnames.named
  · intro s
    apply List.map_congr_left
    intro a ha
    have hmem : a.value ∈ menu.flatMap Popup.values := hvalues ▸ List.mem_map_of_mem ha
    exact State.resolve_eq_value (ne_var_of_mem_flatMap_values hnames hmem)
  · rw [hids]
    exact List.nodup_range'
  · intro b k
    have hmatch : (b.setMenu menu).matchMenu (.int k) =
        .ok ((menu.items.find? fun i => Value.int i.id = .int k).bind (·.label)) := rfl
    rw [hmatch, hids.numbered.find? k]
    split <;> rfl

/-- The menu of a window. One entry is named like a line between entries. -/
def Menu.window : Menu :=
  [⟨⟨1, .text "Window", none⟩, [some ⟨2, .text "SEPARATOR", none⟩, none, some ⟨3, .text "Close", some "Leave"⟩]⟩]

def Menu.windowArgs : List RawArg :=
  [.text "Window", .name "ignore", .text "SEPARATOR", .name "IGNORE", .name "Separator", .text "Close", .name "Leave",
    .name "EndPopup"].map fun raw => ⟨raw, .start⟩

theorem Menu.ofArgs_roundtrip_window :
    (∃ out, Command.setMenu.checkArguments windowArgs .start = .ok out ∧ ofArgs (out.map (·.value)) = .ok window ∧
      ∀ b : Bindings, (b.setMenu window).matchMenu (.int 3) = .ok (some "Leave")) ∧
    ofArgs (window.flatMap Popup.values) = .ok window := by
  have hwindow : ofArgs (window.flatMap Popup.values) = .ok window :=
    ofArgs_roundtrip.2 window (by decide) (by simp [window, items])
  refine ⟨?_, hwindow⟩
  obtain ⟨out, hout, hvalues⟩ := Except.exists_of_map_toOption (x := Command.setMenu.checkArguments windowArgs .start)
    (f := List.map (·.value)) (b := window.flatMap Popup.values) (by decide +kernel)
  obtain ⟨menu, hmenu, -, -, -, -, hmatch⟩ := ofArgs_roundtrip.1 windowArgs .start out hout
  rw [hvalues, hwindow] at hmenu
  cases hmenu
  exact ⟨out, hout, by rw [hvalues, hwindow], fun b => hmatch b 3⟩

end GraphicsBatch
