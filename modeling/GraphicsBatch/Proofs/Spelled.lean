import GraphicsBatch.Proofs.Matching

/-!
# Bindings as they are written

The arguments of a binding command fall into groups: seven for a region, two for a key, and those of a popup up to
its end. What the command binds is what the groups say.
-/

namespace GraphicsBatch

/-- The arguments of a region. -/
def MouseRegion.values (r : MouseRegion) : List Value :=
  [.int r.x1, .int r.y1, .int r.x2, .int r.y2, .label r.label, .var r.varX, .var r.varY]

/-- The arguments of a key. -/
def keyValues (e : Value × String) : List Value := [e.1, .label e.2]

/-- The arguments of a menu entry; one without a label is written `IGNORE`. -/
def MenuItem.values (i : MenuItem) : List Value :=
  [i.name, match i.label with
    | some l => .label l
    | none => .token "IGNORE"]

def memberValues : Member → List Value
  | some i => i.values
  | none => [.token "SEPARATOR"]

def Popup.values (p : Popup) : List Value :=
  p.item.values ++ p.members.flatMap memberValues ++ [.token "ENDPOPUP"]

/-! ## Slots -/

theorem Slot.Holds.of_var {a : Argument} (h : Slot.var.Holds a) : ∃ x, a = ⟨.variable, .var x⟩ := by
  obtain ⟨kind, value⟩ := a
  obtain ⟨rfl, htakes⟩ := h
  cases value with
  | var x => exact ⟨x, rfl⟩
  | _ => simp [Slot.Takes, Slot.var] at htakes

theorem Slot.Holds.of_str {a : Argument} (h : Slot.str.Holds a) : ∃ t, a = ⟨.string, .text t⟩ := by
  obtain ⟨kind, value⟩ := a
  obtain ⟨rfl, htakes⟩ := h
  cases value with
  | text t => exact ⟨t, rfl⟩
  | _ => simp [Slot.Takes, Slot.str] at htakes

theorem Slot.Holds.of_token {choices : List String} {a : Argument} (h : (Slot.token choices).Holds a) :
    ∃ t ∈ choices, a = ⟨.token, .token t⟩ := by
  obtain ⟨kind, value⟩ := a
  obtain ⟨rfl, htakes⟩ := h
  cases value with
  | token t => exact ⟨t, htakes.2, rfl⟩
  | _ => simp [Slot.Takes, Slot.token] at htakes

theorem Slot.Holds.menuItem_values {s : State} {a : Argument} (h : Slot.menuLabel.Holds a) (k : Nat) (name : Value) :
    (⟨k, name, Menu.labelOf (s.resolve a)⟩ : MenuItem).values = [name, s.resolve a] := by
  obtain ⟨kind, value⟩ := a
  obtain ⟨rfl, htakes⟩ := h
  cases value with
  | label l => rfl
  | token t =>
    obtain rfl : t = "IGNORE" := by simpa [Slot.Takes, Slot.menuLabel] using htakes
    rfl
  | _ => simp [Slot.Takes, Slot.menuLabel] at htakes

/-! ## Regions and keys -/

theorem MouseRegion.exists_values {s : State} {n : Nat} {args : List Argument}
    (hargs : List.Forall₂ Slot.Holds
      (List.replicate n [Slot.int, Slot.int, Slot.int, Slot.int, Slot.lbl, Slot.var, Slot.var]).flatten args) :
    ∃ regions : List MouseRegion, args.map s.resolve = regions.flatMap MouseRegion.values := by
  induction n generalizing args with
  | zero =>
    cases hargs
    exact ⟨[], rfl⟩
  | succ n ih =>
    rw [List.replicate_succ, List.flatten_cons] at hargs
    rcases hargs with _ | ⟨h1, _ | ⟨h2, _ | ⟨h3, _ | ⟨h4, _ | ⟨h5, _ | ⟨h6, _ | ⟨h7, hrest⟩⟩⟩⟩⟩⟩⟩
    obtain ⟨n1, e1⟩ := h1.resolve_int (s := s)
    obtain ⟨n2, e2⟩ := h2.resolve_int (s := s)
    obtain ⟨n3, e3⟩ := h3.resolve_int (s := s)
    obtain ⟨n4, e4⟩ := h4.resolve_int (s := s)
    obtain ⟨l, rfl⟩ := h5.of_lbl
    obtain ⟨vx, rfl⟩ := h6.of_var
    obtain ⟨vy, rfl⟩ := h7.of_var
    obtain ⟨regions, hregions⟩ := ih hrest
    refine ⟨⟨n1, n2, n3, n4, l, vx, vy⟩ :: regions, ?_⟩
    simp only [List.map_cons, e1, e2, e3, e4, hregions]
    rfl

/-- Arguments say only one list of regions. -/
theorem MouseRegion.ofArgs_flatMap_values (regions : List MouseRegion) :
    MouseRegion.ofArgs (regions.flatMap MouseRegion.values) = .ok regions := by
  induction regions with
  | nil => rfl
  | cons r regions ih =>
    simp only [List.flatMap_cons, MouseRegion.values, List.cons_append, List.nil_append, MouseRegion.ofArgs, ih]
    rfl

theorem MouseRegion.values_of_ofArgs {s : State} {n : Nat} {args : List Argument} {regions : List MouseRegion}
    (hargs : List.Forall₂ Slot.Holds
      (List.replicate n [Slot.int, Slot.int, Slot.int, Slot.int, Slot.lbl, Slot.var, Slot.var]).flatten args)
    (h : MouseRegion.ofArgs (args.map s.resolve) = .ok regions) :
    args.map s.resolve = regions.flatMap MouseRegion.values := by
  obtain ⟨regions', hvalues⟩ := MouseRegion.exists_values (s := s) hargs
  rw [hvalues, MouseRegion.ofArgs_flatMap_values] at h
  cases h
  exact hvalues

theorem exists_keyValues {s : State} {n : Nat} {args : List Argument}
    (hargs : List.Forall₂ Slot.Holds (List.replicate n [Slot.key, Slot.lbl]).flatten args) :
    ∃ keys : List (Value × String), args.map s.resolve = keys.flatMap keyValues := by
  induction n generalizing args with
  | zero =>
    cases hargs
    exact ⟨[], rfl⟩
  | succ n ih =>
    rw [List.replicate_succ, List.flatten_cons] at hargs
    rcases hargs with _ | ⟨h1, _ | ⟨h2, hrest⟩⟩
    obtain ⟨l, rfl⟩ := h2.of_lbl
    obtain ⟨keys, hkeys⟩ := ih hrest
    exact ⟨(_, l) :: keys, by simp only [List.map_cons, hkeys]; rfl⟩

theorem keysOfArgs_flatMap_keyValues (keys : List (Value × String)) :
    keysOfArgs (keys.flatMap keyValues) = .ok keys := by
  induction keys with
  | nil => rfl
  | cons e keys ih =>
    simp only [List.flatMap_cons, keyValues, List.cons_append, List.nil_append, keysOfArgs, ih]
    rfl

theorem keyValues_of_keysOfArgs {s : State} {n : Nat} {args : List Argument} {keys : List (Value × String)}
    (hargs : List.Forall₂ Slot.Holds (List.replicate n [Slot.key, Slot.lbl]).flatten args)
    (h : keysOfArgs (args.map s.resolve) = .ok keys) : args.map s.resolve = keys.flatMap keyValues := by
  obtain ⟨keys', hvalues⟩ := exists_keyValues (s := s) hargs
  rw [hvalues, keysOfArgs_flatMap_keyValues] at h
  cases h
  exact hvalues

/-! ## Menus -/

namespace Menu

/-- The values that are left say how a menu goes on, in the popup that is open or behind all popups. -/
def Spelled (menu : Menu) (vs : List Value) : Option (MenuItem × List Member) → Prop
  | none => vs = menu.flatMap Popup.values
  | some (item, members) => ∃ more rest, menu = ⟨item, members.reverse ++ more⟩ :: rest ∧
      vs = more.flatMap memberValues ++ .token "ENDPOPUP" :: rest.flatMap Popup.values

/-- There is a menu built of the values, which say it. -/
def Spells (k : Nat) (opened : Option (MenuItem × List Member)) (vs : List Value) : Prop :=
  ∃ menu, build k opened vs = .ok menu ∧ Spelled menu vs opened

theorem MenuArgs.spells {stage : MenuStage} {args : List Argument} (h : MenuArgs stage args) (s : State) :
    match stage with
    | .header => ∀ k, Spells k none (args.map s.resolve)
    | .headerLabel => ∀ k t, Spells k none (.text t :: args.map s.resolve)
    | .member => ∀ k o, Spells k (some o) (args.map s.resolve)
    | .memberLabel => ∀ k o t, Spells k (some o) (.text t :: args.map s.resolve) := by
  induction h with
  | done => exact fun k => ⟨[], rfl, rfl⟩
  | header hold _ ih =>
    obtain ⟨t, rfl⟩ := hold.of_str
    exact fun k => ih k t
  | member hold _ ih =>
    obtain ⟨t, rfl⟩ := hold.of_str
    exact fun k o => ih k o t
  | headerLabel hold _ ih =>
    rename_i a as _
    intro k t
    have hvalues := hold.menuItem_values (s := s) k (.text t)
    obtain ⟨menu, hmenu, more, rest, rfl, hvs⟩ := ih (k + 1) (⟨k, .text t, labelOf (s.resolve a)⟩, [])
    refine ⟨_, hmenu, ?_⟩
    simp only [Spelled, List.map_cons, hvs, List.reverse_nil, List.nil_append, List.flatMap_cons, Popup.values, hvalues,
      List.cons_append, List.append_assoc]
  | memberLabel hold _ ih =>
    rename_i a as _
    rintro k ⟨item, members⟩ t
    have hvalues := hold.menuItem_values (s := s) k (.text t)
    obtain ⟨menu, hmenu, more, rest, rfl, hvs⟩ :=
      ih (k + 1) (item, some ⟨k, .text t, labelOf (s.resolve a)⟩ :: members)
    refine ⟨_, hmenu, some ⟨k, .text t, labelOf (s.resolve a)⟩ :: more, rest, by simp, ?_⟩
    simp only [List.map_cons, hvs, List.flatMap_cons, memberValues, hvalues, List.cons_append, List.nil_append]
  | separator _ ih =>
    rintro k ⟨item, members⟩
    obtain ⟨menu, hmenu, more, rest, rfl, hvs⟩ := ih k (item, none :: members)
    refine ⟨_, hmenu, none :: more, rest, by simp, ?_⟩
    rw [List.map_cons, hvs]
    rfl
  | close _ ih =>
    rintro k ⟨item, members⟩
    obtain ⟨rest, hrest, hvs⟩ := ih k
    -- The members were gathered last first.
    refine ⟨⟨item, members.reverse⟩ :: rest, ?_, [], rest, by simp, ?_⟩
    · exact Except.bind_eq_ok.mpr ⟨rest, hrest, rfl⟩
    · rw [List.map_cons, hvs]
      rfl

theorem values_of_ofArgs {args : List Argument} {s : State} {menu : Menu} (hargs : MenuArgs .header args)
    (h : ofArgs (args.map s.resolve) = .ok menu) : args.map s.resolve = menu.flatMap Popup.values := by
  obtain ⟨menu', hmenu, hvalues⟩ := MenuArgs.spells hargs s 1
  obtain rfl : menu' = menu := Except.ok.inj (hmenu.symm.trans h)
  exact hvalues

/-- The named entries of a popup that is being filled, in order. -/
def filled : Option (MenuItem × List Member) → List MenuItem
  | none => []
  | some (item, members) => item :: members.reverse.filterMap id

theorem build_id {k : Nat} {opened : Option (MenuItem × List Member)} {vs : List Value} {menu : Menu}
    (h : build k opened vs = .ok menu) :
    ∃ more, menu.items = filled opened ++ more ∧ ∀ j i, more[j]? = some i → i.id = j + k := by
  have hcons : ∀ {k : Nat} {i : MenuItem} {more : List MenuItem}, i.id = k →
      (∀ j i, more[j]? = some i → i.id = j + (k + 1)) → ∀ j i', (i :: more)[j]? = some i' → i'.id = j + k := by
    intro k i more hi hmore j i' hj
    cases j with
    | zero =>
      cases hj
      omega
    | succ j =>
      have := hmore j i' hj
      omega
  fun_induction build k opened vs generalizing menu with
  | case1 =>
    cases h
    exact ⟨[], rfl, by simp⟩
  | case2 k name target rest ih =>
    obtain ⟨more, hitems, hids⟩ := ih h
    exact ⟨_, hitems, hcons rfl hids⟩
  | case3 k item members rest ih =>
    obtain ⟨menu', hmenu, h⟩ := Except.bind_eq_ok.mp h
    cases h
    obtain ⟨more, hitems, hids⟩ := ih hmenu
    refine ⟨more, ?_, hids⟩
    rw [items, List.flatMap_cons]
    congr 1
  | case4 k item members rest ih =>
    obtain ⟨more, hitems, hids⟩ := ih h
    exact ⟨more, by rw [hitems]; simp [filled], hids⟩
  | case5 k item members name target rest _ _ ih =>
    obtain ⟨more, hitems, hids⟩ := ih h
    exact ⟨_ :: more, by rw [hitems]; simp [filled]; rfl, hcons rfl hids⟩
  | case6 => cases h

theorem numbered_of_ofArgs {vs : List Value} {menu : Menu} (h : ofArgs vs = .ok menu) : menu.Numbered := by
  obtain ⟨more, hitems, hids⟩ := build_id h
  intro k i hk
  rw [hitems] at hk
  exact hids k i hk

end Menu

end GraphicsBatch
