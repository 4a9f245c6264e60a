import GraphicsBatch.Engine.State
import GraphicsBatch.Proofs.Layout

/-!
# Where bindings come from

The labels in the three binding tables are labels that the arguments of a command mention, and what an
event finds is an entry of the tables.
-/

namespace GraphicsBatch

/-! ## Arguments with their values -/

theorem State.resolve_eq_label {s : State} {a : Argument} {l : String} (h : s.resolve a = .label l) :
    a.value = .label l := by
  unfold State.resolve at h
  split at h
  · cases h
  · cases h
  · exact h

theorem mem_mentions {c : Command} {args : List Argument} {a : Argument} {l : String} (ha : a ∈ args)
    (hv : a.value = .label l) : l ∈ (Action.call c args).mentions :=
  List.mem_filterMap.mpr ⟨a, ha, by rw [hv]⟩

theorem Slot.Holds.of_lbl {a : Argument} (h : Slot.lbl.Holds a) : ∃ l, a = ⟨.label, .label l⟩ := by
  obtain ⟨kind, value⟩ := a
  obtain ⟨rfl, htakes⟩ := h
  cases value with
  | label l => exact ⟨l, rfl⟩
  | _ => simp [Slot.Takes, Slot.lbl] at htakes

theorem Slot.Holds.resolve_int {s : State} {a : Argument} (h : Slot.int.Holds a) : ∃ n, s.resolve a = .int n := by
  obtain ⟨kind, value⟩ := a
  obtain ⟨rfl, htakes⟩ := h
  cases value with
  | int n => exact ⟨n, rfl⟩
  | var x => exact ⟨s.vars.get x, rfl⟩
  | _ => simp [Slot.Takes, Slot.int] at htakes

/-! ## Tables -/

theorem MouseRegion.ofArgs_label {s : State} {n : Nat} {args : List Argument} {regions : List MouseRegion}
    (hargs : List.Forall₂ Slot.Holds
      (List.replicate n [Slot.int, Slot.int, Slot.int, Slot.int, Slot.lbl, Slot.var, Slot.var]).flatten args)
    (h : MouseRegion.ofArgs (args.map s.resolve) = .ok regions) :
    ∀ r ∈ regions, ∃ a ∈ args, a.value = .label r.label := by
  induction n generalizing args regions with
  | zero =>
    cases hargs
    cases h
    simp
  | succ n ih =>
    rw [List.replicate_succ, List.flatten_cons] at hargs
    -- The seven arguments of the first group: four integers, the label and two variables.
    rcases hargs with _ | ⟨h1, _ | ⟨h2, _ | ⟨h3, _ | ⟨h4, _ | ⟨h5, _ | ⟨h6, _ | ⟨h7, hrest⟩⟩⟩⟩⟩⟩⟩
    rename_i a1 a2 a3 a4 a5 a6 a7 rest
    obtain ⟨n1, e1⟩ := h1.resolve_int (s := s)
    obtain ⟨n2, e2⟩ := h2.resolve_int (s := s)
    obtain ⟨n3, e3⟩ := h3.resolve_int (s := s)
    obtain ⟨n4, e4⟩ := h4.resolve_int (s := s)
    obtain ⟨l, rfl⟩ := h5.of_lbl
    have e5 : (s.resolve ⟨.label, .label l⟩).name = .ok l := rfl
    simp only [List.map_cons, e1, e2, e3, e4, MouseRegion.ofArgs, e5, Except.bind_eq_ok] at h
    obtain ⟨_, ⟨⟩, vx, -, vy, -, regions', hregions, h⟩ := h
    cases h
    intro r hr
    rcases List.mem_cons.mp hr with rfl | hr
    · exact ⟨⟨.label, .label l⟩, by simp, rfl⟩
    · obtain ⟨a, ha, hl⟩ := ih hrest hregions r hr
      exact ⟨a, by simp [ha], hl⟩

theorem keysOfArgs_label {s : State} {n : Nat} {args : List Argument} {keys : List (Value × String)}
    (hargs : List.Forall₂ Slot.Holds (List.replicate n [Slot.key, Slot.lbl]).flatten args)
    (h : keysOfArgs (args.map s.resolve) = .ok keys) : ∀ e ∈ keys, ∃ a ∈ args, a.value = .label e.2 := by
  induction n generalizing args keys with
  | zero =>
    cases hargs
    cases h
    simp
  | succ n ih =>
    rw [List.replicate_succ, List.flatten_cons] at hargs
    rcases hargs with _ | ⟨h1, _ | ⟨h2, hrest⟩⟩
    obtain ⟨l, rfl⟩ := h2.of_lbl
    have e2 : (s.resolve ⟨.label, .label l⟩).name = .ok l := rfl
    simp only [List.map_cons, keysOfArgs, e2, Except.bind_eq_ok] at h
    obtain ⟨_, ⟨⟩, keys', hkeys, h⟩ := h
    cases h
    intro e he
    rcases List.mem_cons.mp he with rfl | he
    · exact ⟨⟨.label, .label l⟩, by simp, rfl⟩
    · obtain ⟨a, ha, hl⟩ := ih hrest hkeys e he
      exact ⟨a, by simp [ha], hl⟩

namespace KeyTable

theorem mem_insert {key : Value} {label : String} {t : KeyTable} {e : Value × String}
    (h : e ∈ insert key label t) : (e.1 = key ∨ ∃ f ∈ t, f.1 = e.1) ∧ (e.2 = label ∨ ∃ f ∈ t, f.2 = e.2) := by
  induction t with
  | nil =>
    obtain rfl := List.mem_singleton.mp h
    exact ⟨.inl rfl, .inl rfl⟩
  | cons f t ih =>
    obtain ⟨k, l⟩ := f
    simp only [insert] at h
    split at h
    · rcases List.mem_cons.mp h with rfl | h
      · exact ⟨.inr ⟨(k, l), List.mem_cons_self, rfl⟩, .inl rfl⟩
      · exact ⟨.inr ⟨e, List.mem_cons_of_mem _ h, rfl⟩, .inr ⟨e, List.mem_cons_of_mem _ h, rfl⟩⟩
    · rcases List.mem_cons.mp h with rfl | h
      · exact ⟨.inr ⟨(k, l), List.mem_cons_self, rfl⟩, .inr ⟨(k, l), List.mem_cons_self, rfl⟩⟩
      · obtain ⟨hk, hl⟩ := ih h
        exact ⟨hk.imp_right fun ⟨f, hf, e⟩ => ⟨f, List.mem_cons_of_mem _ hf, e⟩,
          hl.imp_right fun ⟨f, hf, e⟩ => ⟨f, List.mem_cons_of_mem _ hf, e⟩⟩

theorem mem_ofPairs {keys : List (Value × String)} {e : Value × String} (h : e ∈ ofPairs keys) :
    (∃ f ∈ keys, f.1 = e.1) ∧ ∃ f ∈ keys, f.2 = e.2 := by
  have step : ∀ (keys : List (Value × String)) (t : KeyTable) (e : Value × String),
      e ∈ keys.foldl (fun table f => insert f.1 f.2 table) t →
      (∃ f ∈ t ++ keys, f.1 = e.1) ∧ ∃ f ∈ t ++ keys, f.2 = e.2 := by
    intro keys
    induction keys with
    | nil =>
      intro t e h
      exact ⟨⟨e, by simpa using h, rfl⟩, ⟨e, by simpa using h, rfl⟩⟩
    | cons f keys ih =>
      intro t e h
      obtain ⟨⟨a, ha, hak⟩, ⟨b, hb, hbl⟩⟩ := ih _ e h
      constructor
      · rcases List.mem_append.mp ha with ha | ha
        · rcases (mem_insert ha).1 with heq | ⟨g, hg, hgk⟩
          · exact ⟨f, by simp, by rw [← heq, hak]⟩
          · exact ⟨g, by simp [hg], by rw [hgk, hak]⟩
        · exact ⟨a, by simp [ha], hak⟩
      · rcases List.mem_append.mp hb with hb | hb
        · rcases (mem_insert hb).2 with heq | ⟨g, hg, hgl⟩
          · exact ⟨f, by simp, by rw [← heq, hbl]⟩
          · exact ⟨g, by simp [hg], by rw [hgl, hbl]⟩
        · exact ⟨b, by simp [hb], hbl⟩
  simpa using step keys [] e h

end KeyTable

namespace Menu

theorem labelOf_eq_some {v : Value} {l : String} (h : labelOf v = some l) : v = .label l := by
  cases v with
  | label m =>
    cases h
    rfl
  | _ => cases h

/-- The named entries of a popup that is being filled. -/
def openItems : Option (MenuItem × List Member) → List MenuItem
  | none => []
  | some (item, members) => item :: members.filterMap id

theorem mem_of_build {k : Nat} {opened : Option (MenuItem × List Member)} {vs : List Value} {menu : Menu} {i : MenuItem}
    (h : build k opened vs = .ok menu) (hi : i ∈ menu.items) :
    i ∈ openItems opened ∨ i.name ∈ vs ∧ ∃ target ∈ vs, i.label = labelOf target := by
  fun_induction build k opened vs generalizing menu with
  | case1 =>
    cases h
    simp [items] at hi
  | case2 k name target rest ih =>
    rcases ih h hi with hi | ⟨hname, v, hv, hl⟩
    · obtain rfl := List.mem_singleton.mp hi
      exact .inr ⟨by simp, target, by simp, rfl⟩
    · exact .inr ⟨by simp [hname], v, by simp [hv], hl⟩
  | case3 k item members rest ih =>
    simp only [Except.bind_eq_ok] at h
    obtain ⟨menu', hmenu, h⟩ := h
    cases h
    rw [items, List.flatMap_cons, List.mem_append] at hi
    rcases hi with hi | hi
    · exact .inl (by simpa [openItems] using hi)
    · rcases ih hmenu hi with hi | ⟨hname, v, hv, hl⟩
      · simp [openItems] at hi
      · exact .inr ⟨by simp [hname], v, by simp [hv], hl⟩
  | case4 k item members rest ih =>
    rcases ih h hi with hi | ⟨hname, v, hv, hl⟩
    · exact .inl (by simpa [openItems] using hi)
    · exact .inr ⟨by simp [hname], v, by simp [hv], hl⟩
  | case5 k item members name target rest _ _ ih =>
    rcases ih h hi with hi | ⟨hname, v, hv, hl⟩
    · simp only [openItems, List.filterMap_cons, id_eq, List.mem_cons] at hi
      rcases hi with rfl | rfl | hi
      · exact .inl (by simp [openItems])
      · exact .inr ⟨by simp, target, by simp, rfl⟩
      · exact .inl (by simp [openItems, hi])
    · exact .inr ⟨by simp [hname], v, by simp [hv], hl⟩
  | case6 => cases h

theorem build_label {k : Nat} {opened : Option (MenuItem × List Member)} {vs : List Value} {menu : Menu}
    {i : MenuItem} {l : String} (h : build k opened vs = .ok menu) (hi : i ∈ menu.items) (hl : i.label = some l) :
    (∃ j ∈ openItems opened, j.label = some l) ∨ .label l ∈ vs := by
  rcases mem_of_build h hi with hi | ⟨-, v, hv, hlabel⟩
  · exact .inl ⟨i, hi, hl⟩
  · exact .inr (labelOf_eq_some (hlabel ▸ hl) ▸ hv)

end Menu

/-! ## All labels that are bound -/

namespace Bindings

def labels (b : Bindings) : List String :=
  b.mouse.map (·.label) ++ b.keyboard.map (·.2) ++ b.menu.items.filterMap (·.label)

variable {b : Bindings} {l : String}

theorem mem_labels : l ∈ b.labels ↔ (∃ r ∈ b.mouse, r.label = l) ∨ (∃ e ∈ b.keyboard, e.2 = l) ∨
    ∃ i ∈ b.menu.items, i.label = some l := by
  simp [labels]

theorem find?_mem {x y : Datum} {rs : List MouseRegion} {r : MouseRegion}
    (h : MouseRegion.find? x y rs = .ok (some r)) : r ∈ rs := by
  induction rs with
  | nil => cases h
  | cons q rs ih =>
    simp only [MouseRegion.find?, Except.bind_eq_ok] at h
    obtain ⟨inside, -, h⟩ := h
    split at h
    · cases h
      exact List.mem_cons_self
    · exact List.mem_cons_of_mem _ (ih h)

theorem matchMouse_mem {x y : Datum} {r : MouseRegion} (h : b.matchMouse x y = .ok (some r)) : r.label ∈ b.labels :=
  mem_labels.mpr (.inl ⟨r, List.mem_reverse.mp (find?_mem h), rfl⟩)

theorem keyboard_find?_mem {v : Value} (h : b.keyboard.find? v = some l) : l ∈ b.labels := by
  obtain ⟨e, he, rfl⟩ := Option.map_eq_some_iff.mp h
  exact mem_labels.mpr (.inr (.inl ⟨e, List.mem_of_find?_eq_some he, rfl⟩))

theorem matchKey_mem {code char : Datum} {ctrl : Bool} (h : b.matchKey code char ctrl = .ok (some l)) :
    l ∈ b.labels := by
  simp only [matchKey, Except.bind_eq_ok] at h
  obtain ⟨o, ho, h⟩ := h
  split at h
  · cases h
    unfold matchCode at ho
    split at ho
    · cases ho
    · cases ho
    · exact keyboard_find?_mem (Except.ok.inj ho)
    · cases ho
  · unfold matchChar at h
    split at h
    · cases h
    split at h
    · split at h
      · exact keyboard_find?_mem (Except.ok.inj h)
      · cases h
    all_goals cases h

theorem matchMenu_mem {n : Datum} (h : b.matchMenu n = .ok (some l)) : l ∈ b.labels := by
  unfold matchMenu at h
  split at h
  · obtain ⟨i, hi, hl⟩ := Option.bind_eq_some_iff.mp (Except.ok.inj h)
    exact mem_labels.mpr (.inr (.inr ⟨i, List.mem_of_find?_eq_some hi, hl⟩))
  · cases h
  · cases h

end Bindings

end GraphicsBatch
