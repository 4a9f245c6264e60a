import GraphicsBatch.Proofs.Mapped
import GraphicsBatch.Proofs.Planned
import GraphicsBatch.Proofs.Spelled

/-!
# What the host was asked

Any host can be made to keep a record of its requests, and no program notices. In every state of a run the bindings
are those of the last binding command of each class on record.
-/

namespace GraphicsBatch

/-! ## A host with a record -/

variable {σ : Type}

/-- The same host, with a record of all requests, the latest at the end. -/
def Host.recorded (h : Host σ) : Host (List Request × σ) where
  call r w := ((h.call r w.2).1, (w.1 ++ [r], (h.call r w.2).2))
  note record w := (w.1, h.note record w.2)

/-- A run without the record of its host. -/
def Machine.forget (m : Machine (List Request × σ)) : Machine σ := ⟨m.state, m.world.2⟩

@[simp] theorem Machine.forget_state (m : Machine (List Request × σ)) : m.forget.state = m.state := rfl

namespace Host

variable (h : Host σ)

theorem ask_recorded (r : Request) (w : List Request × σ) :
    h.recorded.ask r w = ((h.ask r w.2).1, (w.1 ++ [r], (h.ask r w.2).2)) := by
  unfold ask recorded
  dsimp only
  rcases h.call r w.2 with ⟨_ | _, w'⟩ <;> rfl

theorem askAll_recorded (rs : List Request) (w : List Request × σ) : ∃ k, (rs ≠ [] → k ≠ 0) ∧
    h.recorded.askAll rs w = ((h.askAll rs w.2).1, (w.1 ++ rs.take k, (h.askAll rs w.2).2)) := by
  induction rs generalizing w with
  | nil => exact ⟨0, by simp, by simp [askAll]⟩
  | cons r rs ih =>
    unfold askAll
    rw [ask_recorded]
    rcases hr : h.ask r w.2 with ⟨_ | reply, w'⟩
    · exact ⟨1, by simp, by simp⟩
    · obtain ⟨k, -, hk⟩ := ih (w.1 ++ [r], w')
      refine ⟨k + 1, by simp, ?_⟩
      simp only [hk, List.take_succ_cons, List.append_assoc, List.cons_append, List.nil_append]
      rcases h.askAll rs w' with ⟨_ | _, w''⟩ <;> rfl

end Host

theorem Host.maps_recorded (h : Host σ) : Host.Maps Prod.snd h.recorded h := ⟨fun _ _ => rfl, fun _ _ => rfl⟩

namespace Engine

variable {g : Engine} {h : Host σ} {m : Machine (List Request × σ)} {st : Statement}

/-- The record changes nothing in a run. -/
theorem after_forget (ops : List Op) : (g.after h.recorded m ops).forget = g.after h m.forget ops :=
  (h.maps_recorded.after g m ops).symm

end Engine

/-! ## The last command of a class -/

/-- The arguments of a request to carry out a given command. -/
def Request.argsOf? (c : Command) : Request → Option (List Value)
  | .forward c' args => if c' = c then some args else none
  | _ => none

/-- The arguments with which a command was last carried out; none if it never was. -/
def latest (c : Command) (record : List Request) : List Value :=
  ((record.filterMap (·.argsOf? c)).getLast?).getD []

variable {c : Command} {record rs : List Request}

theorem latest_append_of_none (h : ∀ r ∈ rs, r.argsOf? c = none) : latest c (record ++ rs) = latest c record := by
  have hnone : rs.filterMap (·.argsOf? c) = [] := List.filterMap_eq_nil_iff.mpr h
  rw [latest, List.filterMap_append, hnone, List.append_nil, latest]

theorem latest_append_forward {c' : Command} {args : List Value} (h : ∀ r ∈ rs, ∀ c, r.argsOf? c = none) :
    latest c (record ++ .forward c' args :: rs) = if c' = c then args else latest c record := by
  have hnone : rs.filterMap (·.argsOf? c) = [] := List.filterMap_eq_nil_iff.mpr fun r hr => h r hr c
  unfold latest
  rw [List.filterMap_append, List.filterMap_cons, hnone]
  by_cases hc : c' = c
  · simp [Request.argsOf?, hc]
  · simp [Request.argsOf?, hc]

/-- Each class of bindings is what the last command of its class on record says. -/
structure Bindings.Recalls (b : Bindings) (record : List Request) : Prop where
  mouse : latest .setMouse record = b.mouse.flatMap MouseRegion.values
  keyboard : ∃ keys, latest .setKeyboard record = keys.flatMap keyValues ∧ b.keyboard = .ofPairs keys
  menu : latest .setMenu record = b.menu.flatMap Popup.values
  numbered : b.menu.Numbered

namespace Bindings.Recalls

variable {b : Bindings}

theorem init : Recalls {} [] where
  mouse := rfl
  keyboard := ⟨[], rfl, rfl⟩
  menu := rfl
  numbered := by simp [Menu.Numbered, Menu.items]

theorem append (hb : b.Recalls record)
    (h : ∀ r ∈ rs, r.argsOf? .setMouse = none ∧ r.argsOf? .setKeyboard = none ∧ r.argsOf? .setMenu = none) :
    b.Recalls (record ++ rs) where
  mouse := by rw [latest_append_of_none fun r hr => (h r hr).1, hb.mouse]
  keyboard := by rw [latest_append_of_none fun r hr => (h r hr).2.1]; exact hb.keyboard
  menu := by rw [latest_append_of_none fun r hr => (h r hr).2.2, hb.menu]
  numbered := hb.numbered

section

variable (hb : b.Recalls record) (hrs : ∀ r ∈ rs, ∀ c, r.argsOf? c = none)

include hb hrs

theorem setMouse (regions : List MouseRegion) :
    (b.setMouse regions).Recalls (record ++ .forward .setMouse (regions.flatMap MouseRegion.values) :: rs) where
  mouse := latest_append_forward hrs
  keyboard := by
    rw [latest_append_forward hrs]
    exact hb.keyboard
  menu := (latest_append_forward hrs).trans hb.menu
  numbered := hb.numbered

theorem setKeyboard (keys : List (Value × String)) :
    (b.setKeyboard keys).Recalls (record ++ .forward .setKeyboard (keys.flatMap keyValues) :: rs) where
  mouse := (latest_append_forward hrs).trans hb.mouse
  keyboard := ⟨keys, latest_append_forward hrs, rfl⟩
  menu := (latest_append_forward hrs).trans hb.menu
  numbered := hb.numbered

theorem setMenu {menu : Menu} (hmenu : menu.Numbered) :
    (b.setMenu menu).Recalls (record ++ .forward .setMenu (menu.flatMap Popup.values) :: rs) where
  mouse := (latest_append_forward hrs).trans hb.mouse
  keyboard := by
    rw [latest_append_forward hrs]
    exact hb.keyboard
  menu := latest_append_forward hrs
  numbered := hmenu

end

end Bindings.Recalls

/-! ## Statements -/

theorem Request.argsOf?_forward_of_ne {c' : Command} {args : List Value} (h : c' ≠ c) :
    (Request.forward c' args).argsOf? c = none := if_neg h

namespace Planned

variable {p : Program} {maxStack : Int} {s : State} {a : Action} {pl : Plan}

theorem complete_bindings (hpl : Planned p maxStack s a pl) {reply : Datum} {s' : State}
    (h : pl.complete reply = .ok s') : s'.bindings = pl.prepared.bindings := by
  cases hpl with
  | messageBox _ =>
    obtain ⟨n, -, h⟩ := Except.bind_eq_ok.mp h
    cases h
    rfl
  | cond lhs op rhs t =>
    cases h
    simp only [Plan.quiet]
    split <;> rfl
  | _ =>
    cases h
    rfl

/-- A binding command is on record from the moment it has bound something. -/
theorem recalls (hpl : Planned p maxStack s a pl) (hproper : a.Proper) (hb : s.bindings.Recalls record) {k : Nat}
    (hk : pl.requests ≠ [] → k ≠ 0) : pl.prepared.bindings.Recalls (record ++ pl.requests.take k) := by
  have hquiet : ∀ {c : Command} {args : List Value}, c ≠ .setMouse → c ≠ .setKeyboard → c ≠ .setMenu →
      s.bindings.Recalls (record ++ [Request.forward c args].take k) := by
    intro c args h1 h2 h3
    refine hb.append fun r hr => ?_
    obtain rfl := List.mem_singleton.mp (List.mem_of_mem_take hr)
    exact ⟨Request.argsOf?_forward_of_ne h1, Request.argsOf?_forward_of_ne h2, Request.argsOf?_forward_of_ne h3⟩
  cases hpl with
  | label _ | goto _ | gosub _ _ | back _ | finish | cond _ _ _ _ | assign _ =>
    simpa [Plan.quiet] using hb
  | plain c =>
    have hplain : c.isPlain = true := hproper
    exact hquiet (by rintro rfl; cases hplain) (by rintro rfl; cases hplain) (by rintro rfl; cases hplain)
  | wait args => exact hquiet (by decide) (by decide) (by decide)
  | messageBox _ => exact hquiet (by decide) (by decide) (by decide)
  | setWaitMode _ => exact hquiet (by decide) (by decide) (by decide)
  | forward hc => exact hquiet (by rintro rfl; simp at hc) (by rintro rfl; simp at hc) (by rintro rfl; simp at hc)
  | setMouse hregions =>
    obtain ⟨n, hargs⟩ := hproper
    -- The setter is forwarded first, so it is recorded even if a registration fails.
    obtain ⟨k, rfl⟩ := Nat.exists_eq_succ_of_ne_zero (hk (List.cons_ne_nil _ _))
    simp only [Plan.asking, List.take_succ_cons, MouseRegion.values_of_ofArgs hargs hregions]
    refine hb.setMouse (fun r hr c => ?_) _
    obtain ⟨region, -, rfl⟩ := List.mem_map.mp (List.mem_of_mem_take hr)
    rfl
  | setKeyboard hkeys _ =>
    obtain ⟨n, hargs⟩ := hproper
    obtain ⟨k, rfl⟩ := Nat.exists_eq_succ_of_ne_zero (hk (List.cons_ne_nil _ _))
    simp only [Plan.asking, List.take_succ_cons, keyValues_of_keysOfArgs hargs hkeys]
    refine hb.setKeyboard (fun r hr c => ?_) _
    obtain ⟨key, -, rfl⟩ := List.mem_map.mp (List.mem_of_mem_take hr)
    rfl
  | setMenu hmenu =>
    obtain ⟨k, rfl⟩ := Nat.exists_eq_succ_of_ne_zero (hk (List.cons_ne_nil _ _))
    simp only [Plan.asking, List.take_succ_cons, Menu.values_of_ofArgs hproper hmenu]
    refine hb.setMenu (fun r hr c => ?_) (Menu.numbered_of_ofArgs hmenu)
    obtain rfl := List.mem_singleton.mp (List.mem_of_mem_take hr)
    rfl

end Planned

/-! ## Whole runs -/

namespace Engine

variable {g : Engine} {h : Host σ} {m : Machine (List Request × σ)} {st : Statement}

/-- Whatever the bindings are, the record of the host says it. -/
def Remembers (m : Machine (List Request × σ)) : Prop := m.state.bindings.Recalls m.world.1

theorem perform_remembers (hproper : st.action.Proper) (hm : Remembers m) :
    Remembers (g.perform h.recorded st m).1 := by
  have hcheck : m.state.bindings.Recalls (m.world.1 ++ [.checkEvents]) := hm.append (by simp [Request.argsOf?])
  refine perform_ends (P := fun s (w : List Request × σ) => s.bindings.Recalls w.1) hcheck fun pl hpl => ?_
  obtain ⟨k, hk, hask⟩ := h.askAll_recorded pl.requests (h.recorded.call .checkEvents m.world).2
  have hrecalls := hpl.recalls hproper hcheck hk
  rw [hask]
  refine ⟨hrecalls, fun reply s hs => ?_⟩
  rw [hpl.complete_bindings hs]
  exact hrecalls

theorem wakeAt_bindings {s s' : State} {o : Option String} (h : g.wakeAt s o = .ok (some s')) :
    s'.bindings = s.bindings := by
  cases o with
  | none => cases h
  | some l =>
    obtain ⟨t, -, h⟩ := Except.bind_eq_ok.mp h
    cases h
    rfl

theorem react_bindings {s s' : State} {i : Input} (h : g.react s i = .ok (some s')) : s'.bindings = s.bindings := by
  cases i with
  | click x y =>
    obtain ⟨found, -, h⟩ := Except.bind_eq_ok.mp h
    cases found with
    | none => cases h
    | some r => exact wakeAt_bindings (s := (s.set r.varX x.whole).set r.varY y.whole) h
  | key code char ctrl =>
    obtain ⟨o, -, h⟩ := Except.bind_eq_ok.mp h
    exact wakeAt_bindings h
  | menu id =>
    obtain ⟨o, -, h⟩ := Except.bind_eq_ok.mp h
    exact wakeAt_bindings h
  | timeout =>
    simp only [react] at h
    split at h
    · cases h
      rfl
    · cases h
  | quit => cases h

theorem preserves_remembers (wf : g.program.WellFormed) : g.Preserves h.recorded Remembers where
  place _ hm := hm
  note _ hm := hm
  terminate hm := hm
  perform {_ st} _ hst hm := perform_remembers (wf.proper _ st hst) hm
  react hreact hm := by
    unfold Remembers
    rw [react_bindings hreact]
    exact hm

theorem after_remembers (wf : g.program.WellFormed) (hm : Remembers m) (ops : List Op) :
    Remembers (g.after h.recorded m ops) := by
  induction ops generalizing m with
  | nil => exact hm
  | cons op ops ih =>
    refine ih (m := (g.apply h.recorded m op).1) ?_
    cases op with
    | assign name value => exact hm
    | _ => exact (preserves_remembers wf).apply rfl hm

end Engine

end GraphicsBatch
