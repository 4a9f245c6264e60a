import GraphicsBatch.Host.Headless
import GraphicsBatch.Proofs.Invariants

/-!
# What hosts know about input

A host is told about the regions, the keys, the menu and the wait mode of a program by several requests each. Between
two operations of a run it knows the same of them as the program itself.
-/

namespace GraphicsBatch

/-! ## What can be known -/

/-- The rectangles to click on, the keys, the menu and the wait mode. -/
structure Inputs where
  mouse : List Corners
  keyboard : KeyTable
  menu : Menu
  waitMode : Value
deriving DecidableEq

def State.inputs (s : State) : Inputs :=
  ⟨s.bindings.mouse.map (·.corners), s.bindings.keyboard, s.bindings.menu, .text s.waitMode⟩

def Panel.inputs (p : Panel) : Inputs := ⟨p.mouse, p.keyboard, p.menu, p.waitMode⟩

namespace Inputs

/-- What is known after an instruction: binding commands first of all forget what was bound. -/
def carryOut (k : Inputs) : Instruction → Inputs
  | .setMouse => { k with mouse := [] }
  | .setKeyboard => { k with keyboard := [] }
  | .setMenu => { k with menu := [] }
  | .setWaitMode mode => { k with waitMode := mode }
  | _ => k

/-- What is known after a request. -/
def after (k : Inputs) : Request → Inputs
  | .checkEvents => k
  | .forward c args => (Instruction.ofCall? c args).elim k k.carryOut
  | .bindMouse r _ => { k with mouse := k.mouse ++ [r.corners] }
  | .bindKey key l => { k with keyboard := k.keyboard.insert key l }
  | .showMenu menu => { k with menu }

end Inputs

/-- Instructions about input. -/
def Instruction.binds : Instruction → Bool
  | .setMouse | .setKeyboard | .setMenu | .setWaitMode _ => true
  | _ => false

/-- Requests about input. -/
def Request.binds : Request → Bool
  | .checkEvents => false
  | .forward c args => (Instruction.ofCall? c args).any (·.binds)
  | _ => true

theorem Inputs.after_of_not_binds {r : Request} (h : r.binds = false) (k : Inputs) : k.after r = k := by
  cases r with
  | checkEvents => rfl
  | forward c args =>
    simp only [Request.binds] at h
    simp only [after]
    cases hi : Instruction.ofCall? c args with
    | none => rfl
    | some i =>
      rw [hi] at h
      cases i <;> first | rfl | cases h
  | _ => cases h

theorem Inputs.foldl_of_not_binds {rs : List Request} (h : ∀ r ∈ rs, r.binds = false) (k : Inputs) :
    rs.foldl Inputs.after k = k := by
  induction rs with
  | nil => rfl
  | cons r rs ih =>
    rw [List.foldl_cons, after_of_not_binds (h r List.mem_cons_self)]
    exact ih fun r' hr' => h r' (List.mem_cons_of_mem _ hr')

/-- Requests whose arguments can be written down. -/
def Request.Written : Request → Prop
  | .forward _ args => ∃ texts, Value.allWritten args = .ok texts
  | _ => True

/-! ## Hosts that keep up -/

section

variable {σ : Type}

/-- A host that takes in what it is told, and that never fails to hear of input. -/
structure Host.Attends (h : Host σ) (view : σ → Inputs) : Prop where
  note (r : Record) (w : σ) : view (h.note r w) = view w
  call {r : Request} (w : σ) : r.Written → view (h.call r w).2 = (view w).after r
  hears {r : Request} (w : σ) : r.Written → r.binds = true → ∃ d, (h.call r w).1 = .ok d

variable {h : Host σ} {view : σ → Inputs}

theorem Host.Attends.askAll_binds (hh : h.Attends view) {rs : List Request} (hrs : ∀ r ∈ rs, r.Written ∧ r.binds = true)
    (w : σ) : ∃ d w', h.askAll rs w = (.ok d, w') ∧ view w' = rs.foldl Inputs.after (view w) := by
  induction rs generalizing w with
  | nil => exact ⟨.none, w, rfl, rfl⟩
  | cons r rs ih =>
    obtain ⟨hwritten, hbinds⟩ := hrs r List.mem_cons_self
    obtain ⟨d, hd⟩ := hh.hears w hwritten hbinds
    obtain ⟨d', w', hask, hview⟩ := ih (fun r' hr' => hrs r' (List.mem_cons_of_mem _ hr')) (h.call r w).2
    refine ⟨d, w', ?_, ?_⟩
    · have hr : h.ask r w = (.ok d, (h.call r w).2) := Host.ask_eq_ok.mpr (Prod.ext hd rfl)
      simp only [Host.askAll, hr, hask]
    · rw [hview, hh.call w hwritten, List.foldl_cons]

theorem Host.Attends.askAll_same (hh : h.Attends view) {rs : List Request} (hrs : ∀ r ∈ rs, r.Written ∧ r.binds = false)
    (w : σ) : view (h.askAll rs w).2 = view w := by
  induction rs generalizing w with
  | nil => rfl
  | cons r rs ih =>
    obtain ⟨hwritten, hbinds⟩ := hrs r List.mem_cons_self
    have hview : view (h.ask r w).2 = view w := by
      rw [Host.ask_snd, hh.call w hwritten, Inputs.after_of_not_binds hbinds]
    have hrest := ih (fun r' hr' => hrs r' (List.mem_cons_of_mem _ hr')) (h.ask r w).2
    unfold Host.askAll
    generalize h.ask r w = x at hview hrest
    obtain ⟨_ | d, w₁⟩ := x
    · exact hview
    · dsimp only at hview hrest ⊢
      generalize h.askAll rs w₁ = y at hrest
      obtain ⟨_ | d', w₂⟩ := y <;> exact hrest.trans hview

end

/-! ## Arguments that can be written down -/

theorem Value.allWritten_of_forall {vs : List Value} (h : ∀ v ∈ vs, ∃ t, v.written = .ok t) :
    ∃ texts, Value.allWritten vs = .ok texts := by
  induction vs with
  | nil => exact ⟨[], rfl⟩
  | cons v vs ih =>
    obtain ⟨t, ht⟩ := h v List.mem_cons_self
    obtain ⟨texts, hts⟩ := ih fun v' hv' => h v' (List.mem_cons_of_mem _ hv')
    exact ⟨t :: texts, by simp only [Value.allWritten, ht, hts]; rfl⟩

theorem InReach.writeInt {n : Int} (h : InReach n) : Text.writeInt n = .ok (toString n) := by
  refine Text.writeInt_eq_ok (Nat.le_trans h ?_)
  exact Nat.le_mul_of_pos_left _ (Nat.lt_of_lt_of_le (by decide) Binary64.le_largest)

theorem State.Near.written {s : State} (hs : s.Near) {c : Command} {args : List Argument}
    (hargs : c.signature.Admits args) : ∀ v ∈ args.map s.resolve, ∃ t, v.written = .ok t := by
  intro v hv
  cases v with
  | int n => exact ⟨_, by simp only [Value.written, (hs.resolve .of_fits hargs hv).writeInt]; rfl⟩
  | nothing =>
    obtain ⟨⟨kind, value⟩, ha, hresolve⟩ := List.mem_map.mp hv
    obtain ⟨slot, -, rfl, htakes⟩ := hargs.exists_slot ha
    unfold State.resolve at hresolve
    split at hresolve
    · cases hresolve
    · cases hresolve
    · obtain rfl : value = .nothing := hresolve
      exact htakes.elim
  | _ => exact ⟨_, rfl⟩

theorem Planned.written {p : Program} {maxStack : Int} {s : State} {a : Action} {pl : Plan} (h : Planned p maxStack s a pl)
    (hproper : a.Proper) (hs : s.Near) : ∀ r ∈ pl.requests, r.Written := by
  have hforward : ∀ {c : Command} {args : List Argument}, c.signature.Admits args →
      (Request.forward c (args.map s.resolve)).Written := fun hargs => Value.allWritten_of_forall (hs.written hargs)
  intro r hr
  cases h with
  | plain c =>
    obtain rfl := List.mem_singleton.mp hr
    exact ⟨[], rfl⟩
  | messageBox _ =>
    obtain rfl := List.mem_singleton.mp hr
    exact Value.allWritten_of_forall fun v hv =>
      hs.written (c := .messageBox) hproper v ((List.dropLast_sublist _).subset hv)
  | wait _ | setWaitMode _ | forward _ =>
    obtain rfl := List.mem_singleton.mp hr
    exact hforward hproper
  | setMouse _ | setKeyboard _ _ =>
    rcases List.mem_cons.mp hr with rfl | hr
    · exact hforward hproper
    · obtain ⟨_, -, rfl⟩ := List.mem_map.mp hr
      trivial
  | setMenu _ =>
    rcases List.mem_cons.mp hr with rfl | hr
    · exact hforward hproper
    · obtain rfl := List.mem_singleton.mp hr
      trivial
  | _ => cases hr

/-! ## Statements about input -/

theorem Instruction.of_binds {c : Command} {args : List Value} {i : Instruction} (h : Instruction.ofCall? c args = some i)
    (hi : i.binds = true) : c ∈ [.setMouse, .setKeyboard, .setMenu, .setWaitMode] := by
  unfold Instruction.ofCall? at h
  generalize args.map Value.bare = vs at h
  cases c
  case setMouse | setKeyboard | setMenu | setWaitMode => decide
  all_goals
    -- The others take nine arguments at most.
    rcases vs with _ | ⟨_, _ | ⟨_, _ | ⟨_, _ | ⟨_, _ | ⟨_, _ | ⟨_, _ | ⟨_, _ | ⟨_, _ | ⟨_, _ | _⟩⟩⟩⟩⟩⟩⟩⟩⟩ <;>
      cases h <;> cases hi

theorem Request.forward_not_binds {c : Command} (hc : c ∉ [.setMouse, .setKeyboard, .setMenu, .setWaitMode])
    (args : List Value) : (Request.forward c args).binds = false := by
  simp only [Request.binds]
  cases hi : Instruction.ofCall? c args with
  | none => rfl
  | some i =>
    rw [Option.any_some, Bool.eq_false_iff]
    exact fun hbinds => hc (Instruction.of_binds hi hbinds)

theorem Inputs.foldl_bindMouse (regions : List MouseRegion) (mode : String) (k : Inputs) :
    (regions.map (Request.bindMouse · mode)).foldl Inputs.after k =
      { k with mouse := k.mouse ++ regions.map (·.corners) } := by
  induction regions generalizing k with
  | nil => simp
  | cons r regions ih => simp [ih, Inputs.after]

theorem Inputs.foldl_bindKey (keys : List (Value × String)) (k : Inputs) :
    (keys.map fun (key, l) => Request.bindKey key l).foldl Inputs.after k =
      { k with keyboard := keys.foldl (fun table (key, l) => KeyTable.insert key l table) k.keyboard } := by
  induction keys generalizing k with
  | nil => rfl
  | cons e keys ih => exact ih _

namespace Planned

variable {p : Program} {maxStack : Int} {s : State} {a : Action} {pl : Plan}

theorem complete_inputs (h : Planned p maxStack s a pl) {d : Datum} {s' : State} (hs' : pl.complete d = .ok s') :
    s'.inputs = pl.prepared.inputs := by
  cases h with
  | messageBox _ =>
    obtain ⟨n, -, hs'⟩ := Except.bind_eq_ok.mp hs'
    cases hs'
    rfl
  | cond lhs op rhs t =>
    cases hs'
    simp only [Plan.quiet]
    split <;> rfl
  | _ =>
    cases hs'
    rfl

/-- A statement changes nothing about input and asks nothing about it, or tells the host all that it changes. -/
theorem inputs (h : Planned p maxStack s a pl) (hproper : a.Proper) :
    ((∀ r ∈ pl.requests, r.binds = false) ∧ pl.prepared.inputs = s.inputs) ∨
      ((∀ r ∈ pl.requests, r.binds = true) ∧ pl.prepared.inputs = pl.requests.foldl Inputs.after s.inputs) := by
  -- Only the four setters bind anything, and each is forwarded before its registrations.
  cases h with
  | plain c =>
    have hc : c ∉ [.setMouse, .setKeyboard, .setMenu, .setWaitMode] := by
      intro hmem
      simp only [List.mem_cons, List.not_mem_nil, or_false] at hmem
      rcases hmem with rfl | rfl | rfl | rfl <;> cases hproper
    refine .inl ⟨fun r hr => ?_, rfl⟩
    obtain rfl := List.mem_singleton.mp hr
    exact Request.forward_not_binds hc _
  | messageBox _ | wait _ =>
    refine .inl ⟨fun r hr => ?_, rfl⟩
    obtain rfl := List.mem_singleton.mp hr
    exact Request.forward_not_binds (by decide) _
  | forward hc =>
    refine .inl ⟨fun r hr => ?_, rfl⟩
    obtain rfl := List.mem_singleton.mp hr
    exact Request.forward_not_binds (by simp_all) _
  | setMouse _ | setKeyboard _ _ =>
    refine .inr ⟨fun r hr => ?_, ?_⟩
    · rcases List.mem_cons.mp hr with rfl | hr
      · rfl
      · obtain ⟨_, -, rfl⟩ := List.mem_map.mp hr
        rfl
    · simp only [Plan.asking, List.foldl_cons, Inputs.foldl_bindMouse, Inputs.foldl_bindKey]
      rfl
  | setMenu _ =>
    refine .inr ⟨fun r hr => ?_, rfl⟩
    rcases List.mem_cons.mp hr with rfl | hr
    · rfl
    · obtain rfl := List.mem_singleton.mp hr
      rfl
  | setWaitMode hmode =>
    rcases hproper with _ | ⟨h1, ⟨⟩⟩
    obtain ⟨mode', -, rfl⟩ := Slot.Holds.of_token h1
    cases hmode
    refine .inr ⟨fun r hr => ?_, rfl⟩
    obtain rfl := List.mem_singleton.mp hr
    rfl
  | _ => exact .inl ⟨by simp [Plan.quiet], rfl⟩

end Planned

/-! ## Runs -/

section

variable {σ : Type}

/-- A run whose host knows the same about input as the program, with all numbers in reach. -/
structure Machine.Attended (view : σ → Inputs) (m : Machine σ) : Prop where
  inputs : view m.world = m.state.inputs
  near : m.state.Near

variable {g : Engine} {h : Host σ} {view : σ → Inputs}

theorem Engine.perform_told (hg : g.program.WellFormed) (hh : h.Attends view) {m : Machine σ} {st : Statement}
    (hst : g.program.statements[m.state.pc]? = some st) (hm : m.state.Near) :
    (view (g.perform h st m).1.world = view m.world ∧ (g.perform h st m).1.state.inputs = m.state.inputs) ∨
      ∃ pl, Planned g.program g.maxStack m.state st.action pl ∧
        view (g.perform h st m).1.world = pl.requests.foldl Inputs.after (view m.world) ∧
        (g.perform h st m).1.state.inputs = pl.prepared.inputs := by
  have hcheck : view (h.call .checkEvents m.world).2 = view m.world := by
    rw [hh.call (r := .checkEvents) _ trivial]
    rfl
  refine perform_ends (P := fun s w => (view w = view m.world ∧ s.inputs = m.state.inputs) ∨
    ∃ pl, Planned g.program g.maxStack m.state st.action pl ∧
      view w = pl.requests.foldl Inputs.after (view m.world) ∧ s.inputs = pl.prepared.inputs) (.inl ⟨hcheck, rfl⟩)
    fun pl hplanned => ?_
  have hproper := hg.proper _ st hst
  have hwritten := hplanned.written hproper hm
  -- Requests that may fail are not about input.
  have hasked : view (h.askAll pl.requests (h.call .checkEvents m.world).2).2 =
      pl.requests.foldl Inputs.after (view m.world) := by
    rcases hplanned.inputs hproper with ⟨hsilent, -⟩ | ⟨hbinds, -⟩
    · rw [hh.askAll_same (fun r hr => ⟨hwritten r hr, hsilent r hr⟩), hcheck, Inputs.foldl_of_not_binds hsilent]
    · obtain ⟨d, w', hask, hview⟩ := hh.askAll_binds (fun r hr => ⟨hwritten r hr, hbinds r hr⟩) _
      rw [hask, hview, hcheck]
  exact ⟨.inr ⟨pl, hplanned, hasked, rfl⟩, fun _ _ hs => .inr ⟨pl, hplanned, hasked, hplanned.complete_inputs hs⟩⟩

theorem Engine.perform_attended (hg : g.program.WellFormed) (hh : h.Attends view) {m : Machine σ} {st : Statement}
    (hst : g.program.statements[m.state.pc]? = some st) (hm : m.Attended view) :
    view (g.perform h st m).1.world = (g.perform h st m).1.state.inputs := by
  rcases perform_told hg hh hst hm.near with ⟨hworld, hstate⟩ | ⟨pl, hplanned, hworld, hstate⟩
  · rw [hworld, hstate, hm.inputs]
  · rw [hworld, hstate, hm.inputs]
    rcases hplanned.inputs (hg.proper _ st hst) with ⟨hsilent, hsame⟩ | ⟨-, htold⟩
    · rw [Inputs.foldl_of_not_binds hsilent, hsame]
    · exact htold.symm

theorem Engine.preserves_attended (hg : g.program.WellFormed) (hh : h.Attends view) (hanswers : h.Answers InReach) :
    g.Preserves h (Machine.Attended view) where
  place pos hm := ⟨hm.inputs, (preserves_near hg hanswers).place pos hm.near⟩
  note r hm := ⟨(hh.note r _).trans hm.inputs, hm.near⟩
  terminate hm := ⟨hm.inputs, (preserves_near hg hanswers).terminate hm.near⟩
  perform hrun hst hm := ⟨perform_attended hg hh hst hm, (preserves_near hg hanswers).perform hrun hst hm.near⟩
  react {m i s} hreact hm := by
    refine ⟨?_, (preserves_near hg hanswers).react hreact hm.near⟩
    rw [hm.inputs]
    rcases react_cases hreact with ⟨x, y, r, t, -, -, rfl⟩ | ⟨t, rfl⟩ <;> rfl

end

/-! ## The two hosts -/

theorem Command.ofName?_name (c : Command) : Command.ofName? c.name = some c := by
  have hall : ∀ c ∈ Command.all, Command.ofName? c.name = some c := by decide +kernel
  exact hall c (by cases c <;> decide)

theorem messageBoxChoice_length {type default : Value} {buttons : List String} {n : Int}
    (h : messageBoxChoice type default = .ok (buttons, n)) : buttons.length ≤ 3 := by
  obtain ⟨_, hbuttons, h⟩ := Except.bind_eq_ok.mp h
  obtain ⟨d, -, h⟩ := Except.bind_eq_ok.mp h
  cases h
  unfold optionOf at hbuttons
  split at hbuttons
  · split at hbuttons
    · rename_i hlookup
      obtain ⟨e, he, rfl⟩ := mem_of_lookup hlookup
      cases hbuttons
      exact (by decide : ∀ e ∈ messageBoxButtons, e.2.length ≤ 3) e he
    · cases hbuttons
  · cases hbuttons

theorem messageBoxChoice_fits {type default : Value} {buttons : List String} {n : Int}
    (h : messageBoxChoice type default = .ok (buttons, n)) : Fits n := by
  have hcount := messageBoxChoice_length h
  obtain ⟨_, -, h⟩ := Except.bind_eq_ok.mp h
  obtain ⟨d, -, h⟩ := Except.bind_eq_ok.mp h
  cases h
  have hle : 1 ≤ defaultButton buttons.length d ∧ defaultButton buttons.length d ≤ 3 := by
    unfold defaultButton
    split <;> omega
  exact ⟨by unfold minInt; omega, by unfold maxInt; omega⟩

/-- No answer, or a number of 64 bits. -/
def Datum.IsButton (d : Datum) : Prop := d = .none ∨ ∃ n, d = .int n ∧ Fits n

theorem Datum.IsButton.fits {d : Datum} (hd : d.IsButton) {n : Int} (hn : buttonNumber d = .ok n) : Fits n := by
  rcases hd with rfl | ⟨m, rfl, hm⟩
  · cases hn
    exact .zero
  · unfold buttonNumber at hn
    split at hn <;> cases hn
    · exact hm
    · exact .zero

namespace Panel

theorem carryOut_wait (timeout : Value) (p : Panel) :
    ∃ deadline, (p.carryOut (.wait timeout)).2 = { p with deadline } := by
  simp only [carryOut]
  split
  · rename_i p' hp'
    unfold startWait at hp'
    split at hp'
    · cases hp'
      exact ⟨none, rfl⟩
    · obtain ⟨n, -, hp'⟩ := Except.bind_eq_ok.mp hp'
      obtain ⟨ms, -, hp'⟩ := Except.bind_eq_ok.mp hp'
      cases hp'
      exact ⟨_, rfl⟩
  · exact ⟨p.deadline, rfl⟩

theorem carryOut_inputs (i : Instruction) (p : Panel) : (p.carryOut i).2.inputs = p.inputs.carryOut i := by
  cases i with
  | wait timeout =>
    obtain ⟨deadline, heq⟩ := carryOut_wait timeout p
    rw [heq]
    rfl
  | run command => cases command <;> rfl
  | _ => rfl

theorem carryOut_hears {i : Instruction} (hi : i.binds = true) (p : Panel) : (p.carryOut i).1 = .ok .none := by
  cases i <;> first | rfl | cases hi

theorem carryOut_isButton {i : Instruction} {p : Panel} {d : Datum} (hd : (p.carryOut i).1 = .ok d) : d.IsButton := by
  cases i with
  | messageBox type default icon text caption =>
    simp only [carryOut] at hd
    cases hchoice : messageBoxChoice type default with
    | error f => simp [hchoice, Except.map] at hd
    | ok r =>
      rw [hchoice] at hd
      cases hd
      exact .inr ⟨r.2, rfl, messageBoxChoice_fits hchoice⟩
  | wait timeout =>
    simp only [carryOut] at hd
    split at hd <;> cases hd
    exact .inl rfl
  | run command =>
    simp only [carryOut] at hd
    cases hrun : (p.launch command).1 with
    | error f => simp [hrun, Except.map] at hd
    | ok u =>
      rw [hrun] at hd
      cases hd
      exact .inl rfl
  | number x y v =>
    simp only [carryOut] at hd
    cases htext : v.numberText with
    | error f => simp [htext, Except.map] at hd
    | ok t =>
      rw [htext] at hd
      cases hd
      exact .inl rfl
  | _ =>
    cases hd
    exact .inl rfl

variable {c : Command} {args : List Value}

theorem instructionOf_some {i : Instruction} (h : Instruction.ofCall? c args = some i) :
    instructionOf c.name args = some (.ok i) := by
  simp only [instructionOf, Command.ofName?_name, h]

theorem instructionOf_none (h : Instruction.ofCall? c args = none) :
    instructionOf c.name args = some (.error misplaced) := by
  simp only [instructionOf, Command.ofName?_name, h]

theorem call_inputs (r : Request) (p : Panel) : (host.call r p).2.inputs = p.inputs.after r := by
  cases r with
  | forward c args =>
    simp only [Inputs.after, host, call, forward]
    cases hi : Instruction.ofCall? c args with
    | none => simp only [instructionOf_none hi, Option.elim_none]
    | some i => simp only [instructionOf_some hi, carryOut_inputs, Option.elim_some]
  | _ => rfl

theorem call_hears {r : Request} (hr : r.binds = true) (p : Panel) : ∃ d, (host.call r p).1 = .ok d := by
  cases r with
  | checkEvents => cases hr
  | forward c args =>
    simp only [Request.binds] at hr
    simp only [host, call, forward]
    cases hi : Instruction.ofCall? c args with
    | none => simp [hi] at hr
    | some i =>
      rw [hi] at hr
      simp only [instructionOf_some hi, carryOut_hears hr]
      exact ⟨.none, rfl⟩
  | _ => exact ⟨.none, rfl⟩

theorem attends : host.Attends inputs where
  note _ _ := rfl
  call p _ := call_inputs _ p
  hears p _ hr := call_hears hr p

theorem answers : host.Answers Fits := by
  intro r p d n hd hn
  refine Datum.IsButton.fits ?_ hn
  cases r with
  | forward c args =>
    simp only [host, call, forward] at hd
    cases hi : Instruction.ofCall? c args with
    | none => simp [instructionOf_none hi, Except.mapError] at hd
    | some i =>
      simp only [instructionOf_some hi, Except.mapError_eq_ok] at hd
      exact carryOut_isButton hd
  | _ =>
    cases hd
    exact .inl rfl

end Panel

namespace Headless

/-- What the plain host behind this one knows. -/
def inputs (h : Headless) : Inputs := h.panel.inputs

theorem carryOut_fst (i : Instruction) (h : Headless) :
    (h.carryOut i).1 = (h.panel.carryOut i).1 ∨ (h.carryOut i).1 = .ok .none := by
  cases i with
  | messageBox type default icon text caption =>
    simp only [carryOut, Panel.carryOut]
    cases messageBoxChoice type default <;> exact .inl rfl
  | run command => exact .inr rfl
  | _ => exact .inl rfl

theorem carryOut_inputs (i : Instruction) (h : Headless) : (h.carryOut i).2.inputs = h.inputs.carryOut i := by
  have hpanel : (h.carryOut i).2.inputs = (h.panel.carryOut i).2.inputs := by
    cases i with
    | messageBox type default icon text caption =>
      simp only [carryOut]
      cases messageBoxChoice type default <;> rfl
    | run command => exact (Panel.carryOut_inputs (.run command) h.panel).symm
    | _ => rfl
  rw [hpanel, Panel.carryOut_inputs]
  rfl

theorem carryOut_hears {i : Instruction} (hi : i.binds = true) (h : Headless) : (h.carryOut i).1 = .ok .none := by
  cases i <;> first | rfl | cases hi

theorem carryOut_isButton {i : Instruction} {h : Headless} {d : Datum} (hd : (h.carryOut i).1 = .ok d) : d.IsButton := by
  rcases carryOut_fst i h with heq | heq
  · exact Panel.carryOut_isButton (heq ▸ hd)
  · rw [heq] at hd
    cases hd
    exact .inl rfl

theorem attends : host.Attends inputs where
  note _ _ := rfl
  call {r} h hr := by
    cases r with
    | forward c args =>
      obtain ⟨texts, htexts⟩ := hr
      simp only [Inputs.after, host, call, forward, htexts]
      cases hi : Instruction.ofCall? c args with
      | none =>
        simp only [Panel.instructionOf_none hi]
        rfl
      | some i =>
        simp only [Panel.instructionOf_some hi, carryOut_inputs]
        rfl
    | _ => rfl
  hears {r} h hr hbinds := by
    cases r with
    | checkEvents => cases hbinds
    | forward c args =>
      obtain ⟨texts, htexts⟩ := hr
      simp only [Request.binds] at hbinds
      simp only [host, call, forward, htexts]
      cases hi : Instruction.ofCall? c args with
      | none => simp [hi] at hbinds
      | some i =>
        rw [hi] at hbinds
        simp only [Panel.instructionOf_some hi, carryOut_hears hbinds]
        exact ⟨.none, rfl⟩
    | _ => exact ⟨.none, rfl⟩

theorem answers : host.Answers Fits := by
  intro r h d n hd hn
  refine Datum.IsButton.fits ?_ hn
  cases r with
  | forward c args =>
    simp only [host, call, forward] at hd
    split at hd
    · simp [Except.mapError] at hd
    · cases hi : Instruction.ofCall? c args with
      | none => simp [Panel.instructionOf_none hi, Except.mapError] at hd
      | some i =>
        simp only [Panel.instructionOf_some hi, Except.mapError_eq_ok] at hd
        exact carryOut_isButton hd
  | _ =>
    cases hd
    exact .inl rfl

end Headless

/-! ## Programs and hosts agree -/

/-- A program starts and goes on with what a host knows about input. -/
theorem Engine.after_inputs {σ : Type} {h : Host σ} {view : σ → Inputs} {g : Engine} (hg : g.program.WellFormed)
    (hh : h.Attends view) (hanswers : h.Answers Fits) {w : σ} (hw : view w = ({} : State).inputs) {ops : List Op}
    (hops : ∀ op ∈ ops, op.drives = true) :
    view (g.after h ⟨{}, w⟩ ops).world = (g.after h ⟨{}, w⟩ ops).state.inputs :=
  ((preserves_attended hg hh (hanswers.mono .of_fits)).after hops ⟨hw, .init⟩).inputs

/-- Whatever was done, the hosts know the regions, the keys, the menu and the wait mode of the program. -/
theorem Engine.after_mirrored {source : String} {pedantic : Bool} {p : Program}
    (hp : Program.parse source pedantic = .ok p) (maxStack : Int) (trace : Bool) (world : World) (caption : Value)
    {ops : List Op} (hops : ∀ op ∈ ops, op.drives = true) :
    let g : Engine := { program := p, maxStack, trace }
    let m := g.after Panel.host ⟨{}, { world }⟩ ops
    let n := g.after Headless.host ⟨{}, { panel := { world }, caption }⟩ ops
    (m.world.mouse = m.state.bindings.mouse.map (·.corners) ∧ m.world.keyboard = m.state.bindings.keyboard ∧
      m.world.menu = m.state.bindings.menu ∧ m.world.waitMode = .text m.state.waitMode) ∧
    (n.world.panel.mouse = n.state.bindings.mouse.map (·.corners) ∧ n.world.panel.keyboard = n.state.bindings.keyboard ∧
      n.world.panel.menu = n.state.bindings.menu ∧ n.world.panel.waitMode = .text n.state.waitMode) := by
  intro g m n
  have hg : g.program.WellFormed := by
    obtain ⟨lines, hlines, rfl⟩ := Program.parse_eq_ofLines hp
    exact Program.ofLines_wellFormed hlines
  have hm : m.world.inputs = m.state.inputs := after_inputs hg Panel.attends Panel.answers rfl hops
  have hn : n.world.inputs = n.state.inputs := after_inputs hg Headless.attends Headless.answers rfl hops
  simp only [Headless.inputs, Panel.inputs, State.inputs, Inputs.mk.injEq] at hm hn
  exact ⟨hm, hn⟩

/-- A click leads back to the statement that binds the regions, and moves one of them. -/
theorem Engine.after_mirrored_click :
    ∃ p, Program.parse "a: SetMouse(1,2,3,4,a,x,y,x,y,x,9,a,x,y) WaitInput()" true = .ok p ∧
      let m := ({ program := p } : Engine).after Panel.host ⟨{}, { world := {} }⟩
        [.run 9, .resume 9 { kind := .mouseClick, params := [.int 2, .int 3] } rfl]
      m.state.bindings.mouse.map (·.corners) = [⟨1, 2, 3, 4⟩, ⟨2, 3, 2, 9⟩] ∧
      m.world.mouse = m.state.bindings.mouse.map (·.corners) ∧ m.world.keyboard = m.state.bindings.keyboard ∧
      m.world.menu = m.state.bindings.menu ∧ m.world.waitMode = .text m.state.waitMode := by
  have hmouse : (Program.parse "a: SetMouse(1,2,3,4,a,x,y,x,y,x,9,a,x,y) WaitInput()" true).toOption.map
        (fun p => (({ program := p } : Engine).after Panel.host ⟨{}, { world := {} }⟩
          [.run 9, .resume 9 { kind := .mouseClick, params := [.int 2, .int 3] } rfl]).state.bindings.mouse.map (·.corners)) =
      some [⟨1, 2, 3, 4⟩, ⟨2, 3, 2, 9⟩] := by decide +kernel
  obtain ⟨p, hp, hmouse⟩ := Except.exists_of_map_toOption hmouse
  have hops : ∀ op ∈ [Op.run 9, .resume 9 { kind := .mouseClick, params := [.int 2, .int 3] } rfl], op.drives = true := by
    simp [Op.drives]
  exact ⟨p, hp, hmouse, (after_mirrored hp 10000 false {} (.text "") hops).1⟩

end GraphicsBatch
