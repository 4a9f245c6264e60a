import GraphicsBatch.Proofs.Underway

/-!
# The window fits

The window on the screen is to be as large as canvas and menu bar together. It is set when the canvas gets another size,
and when a menu is shown where there was none. Nobody sets it when a menu is removed: then there is room for a menu bar
that is gone, until the window is set for another reason.
-/

namespace GraphicsBatch

namespace Window

/-! ## Work at the window -/

/-- The work `act` leaves the window on the screen as it is, or sets it anew. -/
def Refitting {α : Type} (act : Draw α) : Prop := ∀ w : Window, w.fit.Refits (act.run.run w).2.fit

namespace Refitting

variable {α β : Type} {act : Draw α}

theorem draws (h : Draws (fun _ => False) act) : Refitting act := h.refits

theorem pure (a : α) : Refitting (Pure.pure a : Draw α) := fun _ => .same

theorem lift (x : Except Failure α) : Refitting (liftM x : Draw α) := fun _ => .same

theorem modify {f : Window → Window} (hf : ∀ w, (f w).fit = w.fit) : Refitting (modify f : Draw Unit) :=
  fun w => (congrArg w.fit.Refits (hf w)).mpr .same

theorem bind {k : α → Draw β} (h : Refitting act) (hk : ∀ a, Refitting (k a)) : Refitting (act >>= k) := by
  intro w
  have hact := h w
  rw [run_bind]
  generalize act.run.run w = x at hact
  obtain ⟨_ | a, w'⟩ := x
  · exact hact
  · exact hact.trans (hk a w')

theorem glance {k : Window → Draw α} (hk : ∀ w, Refitting (k w)) : Refitting (get >>= k) := fun w => hk w w

end Refitting

theorem refresh_refitting : Refitting refresh := .draws (.refresh fun _ => False.elim)

/-! ## Taking events -/

theorem fit_takeEvent (w : Window) : (w.mapDisplay fun _ => w.display.takeEvent.2).fit = w.fit := by
  unfold Display.takeEvent
  split
  · rfl
  · split <;> rfl

theorem fit_hasFocus (w : Window) : (w.mapDisplay fun _ => w.display.hasFocus.2).fit = w.fit := by
  unfold Display.hasFocus
  split <;> rfl

theorem nextEvent_refitting (timeout : Int) : Refitting (nextEvent timeout) := by
  have hsleep : Refitting (if timeout = 0 then return DisplayEvent.quit else do
      let ms ← inRange (Binary64.ofInt timeout)
      modify (mapWorld (·.sleep ms))
      return .other) := by
    split
    · exact .pure _
    · exact .bind (.lift _) fun ms => .bind (.modify fun _ => rfl) fun _ => .pure _
  refine .bind (.draws (.emit rfl)) fun _ w => ?_
  have htake := w.fit_takeEvent
  rw [run_get_bind]
  generalize w.display.takeEvent = x at htake
  obtain ⟨_ | e, d⟩ := x
  · exact hsleep w
  · exact (congrArg w.fit.Refits htake).mpr .same

theorem postEvent_refitting (e : DisplayEvent) : Refitting (postEvent e) :=
  .bind (.draws (.emit rfl)) fun _ => .modify fun _ => rfl

theorem waitLimit_refitting : Refitting waitLimit := by
  intro w
  have hfocus := w.fit_hasFocus
  unfold waitLimit
  rw [run_get_bind]
  generalize w.panel.remaining = x
  obtain _ | _ | ms := x
  · exact .same
  · exact .same
  · generalize w.display.hasFocus = y at hfocus
    obtain ⟨focused, d⟩ := y
    change w.fit.Refits ((if _ then _ else _ : Draw (Option Int)).run.run w).2.fit
    split
    · exact (congrArg w.fit.Refits hfocus).mpr .same
    · exact .same

/-! ## Message boxes -/

theorem answer_refitting {x : Except Failure (Option Int)} {act : Draw Int} (h : Refitting act) : Refitting (do
    match ← x with
    | some n => return n
    | none => act : Draw Int) := by
  refine .bind (.lift _) fun answer => ?_
  cases answer with
  | none => exact h
  | some n => exact .pure n

theorem awaitAnswer_refitting (buttons : List Rect) (chosen : Int) (fuel : Nat) :
    Refitting (awaitAnswer buttons chosen fuel) := by
  induction fuel with
  | zero => exact .pure _
  | succ fuel ih =>
    refine .bind (nextEvent_refitting 0) fun e => ?_
    dsimp only
    split
    · exact .bind (postEvent_refitting e) fun _ => answer_refitting ih
    · exact answer_refitting ih

theorem messageBox_refitting (type default icon text caption : Value) :
    Refitting (messageBox type default icon text caption) := by
  refine .bind (.lift _) fun choice => .bind (.draws (.newFont _ _ _ _)) fun f => .bind (.lift _) fun mark => ?_
  refine .bind (.draws (.measurable fun _ => False.elim)) fun _ => ?_
  refine .bind (.draws (.measurable fun _ => False.elim)) fun _ => .glance fun w => ?_
  refine .bind (.lift _) fun window => .bind refresh_refitting fun _ => ?_
  refine .bind (.draws (.drawDialog _ _ _ _ (fun _ => False.elim) fun _ => False.elim)) fun _ => .glance fun w => ?_
  exact .bind (awaitAnswer_refitting _ _ _) fun n => .bind refresh_refitting fun _ => .pure n

/-! ## The menu -/

theorem clickHeaders_refitting (p : Pixel) (entries : List (Nat × Popup × Rect)) : Refitting (clickHeaders p entries) := by
  induction entries with
  | nil => exact .pure _
  | cons x entries ih =>
    refine .bind (.lift _) fun hits => ?_
    dsimp only
    split
    · split
      · exact .pure _
      · exact .bind (.modify fun _ => rfl) fun _ => ih
    · exact ih

theorem barClick_refitting (p : Pixel) (menu : Menu) : Refitting (barClick p menu) := by
  refine .bind (.draws (.headers fun _ => False.elim)) fun rects => .bind (clickHeaders_refitting p _) fun found => ?_
  cases found with
  | some e => exact .pure _
  | none => exact .bind refresh_refitting fun _ => .pure none

theorem menuClick_refitting (p : Pixel) : Refitting (menuClick p) := by
  refine .glance fun w => ?_
  split
  · refine .bind (.modify fun _ => rfl) fun _ => ?_
    dsimp only
    split
    · exact fun _ => .same
    · refine .bind (.draws (.popupRects fun _ => False.elim)) fun members => .bind (.lift _) fun found => ?_
      cases found with
      | none => exact barClick_refitting p _
      | some item => exact .bind refresh_refitting fun _ => .pure _
  · exact barClick_refitting p _

/-! ## Waits -/

theorem eventOf_refitting (e : DisplayEvent) : Refitting (eventOf e) := by
  have hrefresh : Refitting (do
      refresh
      return (none : Option Event)) := .bind refresh_refitting fun _ => .pure none
  refine .glance fun w => ?_
  cases e with
  | quit | other => exact .pure _
  | exposed => exact hrefresh
  | resize width height => exact .bind (.draws (.resize _)) fun _ => hrefresh
  | click p button =>
    dsimp only
    split
    · exact menuClick_refitting p
    · exact .lift _
  | key code modifiers typed =>
    dsimp only
    split
    · exact .bind (.modify fun _ => rfl) fun _ => hrefresh
    · exact .pure _

theorem await_refitting (fuel : Nat) : Refitting (await fuel) := by
  induction fuel with
  | zero => exact .pure _
  | succ fuel ih =>
    have hround : Refitting round := by
      refine .bind waitLimit_refitting fun limit => ?_
      cases limit with
      | none => exact .pure _
      | some ms => exact .bind (nextEvent_refitting ms) eventOf_refitting
    refine .bind hround fun found => ?_
    cases found with
    | none => exact ih
    | some e => exact .pure _

theorem waitEvent_refitting : Refitting waitEvent :=
  .bind refresh_refitting fun _ => .bind (.modify fun _ => rfl) fun _ => .glance fun _ => await_refitting _

/-! ## What a step can do -/

namespace Fit

/-- What a statement can do to a window: nothing, remove the menu, or set the window on the screen. -/
inductive Shifts (removes : Prop) (f : Fit) : Fit → Prop where
  | same : Shifts removes f f
  | bare : removes → Shifts removes f { f with menu := [] }
  | set {f' : Fit} : f.modes.length < f'.modes.length → f'.Snug → (f'.menu = [] → f.menu = []) → Shifts removes f f'

variable {removes : Prop} {f f' : Fit} {before : Bool}

theorem Refits.shifts (h : f.Refits f') : f.Shifts removes f' := by
  cases h with
  | same => exact .same
  | anew h => exact .set h.longer h.snug fun hmenu => h.menu.symm.trans hmenu

theorem Refits.snug (h : f.Refits f') (hf : f.Snug) : f'.Snug := by
  cases h with
  | same => exact hf
  | anew h => exact h.snug

theorem Shifts.imp {removes' : Prop} (h : f.Shifts removes f') (himp : removes → removes') : f.Shifts removes' f' := by
  cases h with
  | same => exact .same
  | bare hremoves => exact .bare (himp hremoves)
  | set hlonger hsnug hmenu => exact .set hlonger hsnug hmenu

theorem Shifts.modes_eq (h : f.Shifts removes f') (hmenu : f.menu ≠ []) (hmenu' : f'.menu = []) : f'.modes = f.modes := by
  cases h with
  | same => rfl
  | bare _ => rfl
  | set _ _ h => exact absurd (h hmenu') hmenu

/-- How things stand, given whether the menu has been removed since the window on the screen was last set. -/
inductive Stands (f : Fit) : (removed : Bool) → Prop where
  | snug : f.Snug → Stands f false
  | bare : f.menu = [] → f.modes.getLast? = some (f.size.1, f.size.2 + menuBarHeight) → Stands f true

/-- Whether the menu has been removed since the window on the screen was last set, given whether it had been before. -/
def removed (f f' : Fit) (before : Bool) : Bool :=
  decide (f'.modes = f.modes) && (before || !f.menu.isEmpty && f'.menu.isEmpty)

theorem modes_ne (h : f.modes.length < f'.modes.length) : f'.modes ≠ f.modes :=
  fun heq => absurd (heq ▸ h) (Nat.lt_irrefl _)

theorem Stands.snug_iff (h : f.Stands before) : f.Snug ↔ before = false := by
  cases h with
  | snug h => exact iff_of_true h rfl
  | bare hmenu hlast =>
    refine iff_of_false (fun hsnug => ?_) nofun
    rw [Snug, hlast, hmenu] at hsnug
    have hheight := congrArg Prod.snd (Option.some.inj hsnug)
    simp [menuBarHeight] at hheight

theorem Shifts.stands (h : f.Shifts removes f') (hf : f.Stands before) :
    f'.Stands (f.removed f' before) := by
  cases h with
  | same => simpa [removed] using hf
  | bare _ =>
    cases hf with
    | snug hsnug =>
      cases hempty : f.menu.isEmpty with
      | true =>
        have hstill : Snug { f with menu := [] } := by simpa [Snug, hempty] using hsnug
        simpa [removed, hempty] using Stands.snug hstill
      | false =>
        -- The room that was made for the menu is not taken back.
        have hroom : f.modes.getLast? = some (f.size.1, f.size.2 + menuBarHeight) := by simpa [Snug, hempty] using hsnug
        simpa [removed, hempty] using Stands.bare (f := { f with menu := [] }) rfl hroom
    | bare hmenu hlast => simpa [removed] using Stands.bare (f := { f with menu := [] }) rfl hlast
  | set hlonger hsnug _ => simpa [removed, modes_ne hlonger] using Stands.snug hsnug

theorem Shifts.removed_eq_false (h : f.Shifts removes f') (hno : ¬ removes) : f.removed f' false = false := by
  cases h with
  | same => simp [removed]
  | bare hremoves => exact absurd hremoves hno
  | set hlonger _ _ => simp [removed, modes_ne hlonger]

end Fit

theorem waitEvent_shifts {w w' : Window} {r : Except Failure (Option Event)} (h : waitEvent.run.run w = (r, w')) :
    w.fit.Shifts False w'.fit := by
  have hrefits := waitEvent_refitting w
  rw [h] at hrefits
  exact hrefits.shifts

theorem carryOut_refitting {i : Instruction} (hi : i ≠ .setMenu) : Refitting (carryOut i) := by
  by_cases hdraws : i.draws = true
  · exact .draws (carryOut_draws hdraws)
  · cases i with
    | messageBox type default icon text caption => exact .bind (messageBox_refitting _ _ _ _ _) fun _ => .pure _
    | coordinates system => exact fun _ => .same
    | setMenu => exact absurd rfl hi
    | wait timeout =>
      intro w
      obtain ⟨deadline, hdeadline⟩ := w.panel.carryOut_wait timeout
      rw [carryOut_plain rfl, run_viaPanel, hdeadline]
      exact .same
    | run command =>
      intro w
      rw [carryOut_plain rfl, run_viaPanel]
      cases command <;> exact .same
    | setKeyboard | setMouse | setWaitMode _ =>
      intro w
      rw [carryOut_plain rfl, run_viaPanel]
      exact .same
    | _ => exact absurd rfl hdraws

theorem forward_refits {c : Command} (hc : c ≠ .setMenu) (args : List Value) (w : Window) :
    w.fit.Refits (host.call (.forward c args) w).2.fit := by
  cases hi : Instruction.ofCall? c args with
  | none =>
    simp only [host, call, forward, Panel.instructionOf_none hi]
    exact .same
  | some i =>
    rw [call_forward hi]
    refine carryOut_refitting ?_ w
    rintro rfl
    exact hc (Instruction.of_setMenu hi)

theorem forward_shifts {removes : Prop} {c : Command} (hc : c ≠ .setMenu) (args : List Value) (w : Window) :
    w.fit.Shifts removes (host.askAll [.forward c args] w).2.fit := by
  rw [Host.askAll_singleton_snd]
  exact (forward_refits hc args w).shifts

theorem binding_shifts {removes : Prop} {c : Command} {rs : List Request} (hc : c ≠ .setMenu)
    (hrs : ∀ r ∈ rs, ∀ w : Window, (host.call r w).2.fit = w.fit) (args : List Value) (w : Window) :
    w.fit.Shifts removes (host.askAll (.forward c args :: rs) w).2.fit := by
  have hkeeps : ∀ r ∈ .forward c args :: rs, ∀ w' : Window, w.fit.Refits w'.fit → w.fit.Refits (host.call r w').2.fit := by
    intro r hr w' hw'
    rcases List.mem_cons.mp hr with rfl | hr
    · exact hw'.trans (forward_refits hc args w')
    · exact (congrArg w.fit.Refits (hrs r hr w')).mpr hw'
  exact (Host.askAll_keeps (P := fun w' : Window => w.fit.Refits w'.fit) hkeeps .same).shifts

/-- The arguments of `SetMenu` are not looked at when the old menu is forgotten. -/
theorem fit_forward_setMenu (args : List Value) (w : Window) :
    (host.call (.forward .setMenu args) w).2.fit = { w.fit with menu := [] } := by
  rw [call_forward (i := .setMenu) rfl, carryOut_plain rfl, run_viaPanel]
  rfl

theorem fit_isClosing (w : Window) : (host.call .checkEvents w).2.fit = w.fit := by
  change w.isClosing.2.fit = _
  unfold isClosing Display.peekQuit
  dsimp only
  split <;> rfl

/-- By the time that a menu is shown the one before has been forgotten. -/
theorem setMenu_shifts {removes : Prop} {menu : Menu} (hmenu : menu = [] → removes) (args : List Value) (w : Window) :
    w.fit.Shifts removes (host.call (.showMenu menu) (host.call (.forward .setMenu args) w).2).2.fit := by
  have hforget := fit_forward_setMenu args w
  generalize (host.call (.forward .setMenu args) w).2 = w₁ at hforget
  have hempty : w₁.panel.menu = [] := congrArg Fit.menu hforget
  change w.fit.Shifts removes ((if (w₁.panel.menu.isEmpty != menu.isEmpty) = true then fitFrame else pure ()).run.run
    { w₁ with panel := w₁.panel.showMenu menu, openPopup := none }).2.fit
  rw [hempty]
  cases menu with
  | nil =>
    have hfit : { w₁ with panel := w₁.panel.showMenu [], openPopup := none }.fit = { w.fit with menu := [] } := by
      rw [← hforget]
      exact congrArg (Fit.mk w₁.display.modes w₁.size) hempty.symm
    exact (congrArg (w.fit.Shifts removes) hfit).mpr (.bare (hmenu rfl))
  | cons p menu =>
    have hanew := fit_fitFrame { w₁ with panel := w₁.panel.showMenu (p :: menu), openPopup := none }
    refine .set ?_ hanew.snug fun hnone => ?_
    · have hmodes : w.fit.modes = w₁.display.modes := (congrArg Fit.modes hforget).symm
      rw [hmodes]
      exact hanew.longer
    · cases hanew.menu.symm.trans hnone

end Window

/-! ## Menus without popups -/

theorem Menu.build_ne_nil {id : Nat} {opened : MenuItem × List Member} {vs : List Value} {menu : Menu}
    (h : build id (some opened) vs = .ok menu) : menu ≠ [] := by
  generalize ho : some opened = o at h
  fun_induction build id o vs generalizing opened with
  | case1 => cases ho
  | case2 => cases ho
  | case3 id item members rest ih =>
    obtain ⟨menu', -, hmenu⟩ := Except.bind_eq_ok.mp h
    cases hmenu
    exact List.cons_ne_nil _ _
  | case4 id item members rest ih => exact ih rfl h
  | case5 id item members name target rest _ _ ih => exact ih rfl h
  | case6 => cases h

theorem Menu.eq_nil_of_build {id : Nat} {vs : List Value} (h : build id none vs = .ok []) : vs = [] := by
  rcases vs with _ | ⟨name, _ | ⟨target, rest⟩⟩
  · rfl
  · cases h
  · exact absurd rfl (build_ne_nil h)

/-! ## Statements -/

theorem Planned.shifts {p : Program} {maxStack : Int} {s : State} {a : Action} {pl : Plan} (h : Planned p maxStack s a pl)
    (hproper : a.Proper) (w : Window) : w.fit.Shifts (a = .call .setMenu []) (Window.host.askAll pl.requests w).2.fit := by
  cases h with
  | plain c =>
    refine Window.forward_shifts ?_ _ w
    rintro rfl
    cases hproper
  | wait _ | messageBox _ | setWaitMode _ => exact Window.forward_shifts (by decide) _ w
  | forward hc =>
    refine Window.forward_shifts ?_ _ w
    rintro rfl
    simp at hc
  | setMouse _ | setKeyboard _ _ =>
    refine Window.binding_shifts (by decide) (fun r hr w' => ?_) _ w
    obtain ⟨_, -, rfl⟩ := List.mem_map.mp hr
    rfl
  | @setMenu args menu hmenu =>
    obtain ⟨d, hforget⟩ := Window.call_hears (r := .forward .setMenu (args.map s.resolve)) rfl w
    rw [Plan.asking, Host.askAll_cons_snd (Host.ask_eq_ok.mpr (Prod.ext hforget rfl)), Host.askAll_singleton_snd]
    refine Window.setMenu_shifts ?_ (args.map s.resolve) w
    rintro rfl
    rw [List.map_eq_nil_iff.mp (Menu.eq_nil_of_build hmenu)]
  | _ => exact .same

namespace Engine

variable {g : Engine} {m m' : Machine Window} {st : Statement}

theorem perform_shifts (hproper : st.action.Proper) :
    m.world.fit.Shifts (st.action = .call .setMenu []) (g.perform Window.host st m).1.world.fit := by
  have hcheck : (Window.host.call .checkEvents m.world).2.fit = m.world.fit := m.world.fit_isClosing
  rw [← hcheck]
  refine perform_ends (P := fun _ w => Window.Fit.Shifts (st.action = .call .setMenu []) _ (Window.fit w)) .same
    fun pl hpl => ?_
  exact ⟨hpl.shifts hproper _, fun _ _ _ => hpl.shifts hproper _⟩

theorem step_shifts (wf : g.program.WellFormed) {r : Except Trap Unit} (hstep : g.step Window.host m = (m', r)) :
    m.world.fit.Shifts (∃ st ∈ g.program.statements, st.action = .call .setMenu []) m'.world.fit := by
  obtain rfl : (g.step Window.host m).1 = m' := congrArg Prod.fst hstep
  rcases step_parts g Window.host m with ⟨-, heq⟩ | ⟨-, -, heq⟩ | ⟨st, -, hst, heq⟩ <;> rw [heq]
  · exact .same
  · exact .same
  · have henter : (g.entering Window.host st m).world.fit = m.world.fit := by
      unfold entering
      split <;> rfl
    have hremoves : st.action = .call .setMenu [] → ∃ st ∈ g.program.statements, st.action = .call .setMenu [] :=
      fun haction => ⟨st, Array.mem_of_getElem? hst, haction⟩
    have hperform := (perform_shifts (g := g) (m := g.entering Window.host st m) (wf.proper _ st hst)).imp hremoves
    rw [← henter]
    generalize g.perform Window.host st (g.entering Window.host st m) = x at hperform
    obtain ⟨m', _ | _ | _ | _ | _⟩ := x <;> exact hperform

theorem fit_resume {e : Event} {r : Except Trap Unit} (hresume : g.resume Window.host 0 e m = (m', r)) :
    m'.world.fit = m.world.fit := by
  obtain rfl : (g.resume Window.host 0 e m).1 = m' := congrArg Prod.fst hresume
  have hresumed := resumed g Window.host 0 e m
  generalize g.resume Window.host 0 e m = r at hresumed
  cases hresumed <;> rfl

end Engine

/-! ## Runs -/

theorem Window.open_snug {world : World} {caption : Value} {dimensions : Option (Int × Int)} {w : Window}
    (h : Window.open world caption dimensions = .ok w) : w.fit.Snug := by
  unfold Window.open at h
  dsimp only at h
  split at h
  · cases h
  · split at h
    · cases h
    · split at h
      rename_i w₁ hrun
      split at h
      · cases h
      · cases h
        have hshow : Draws (fun _ => False) (do
          emit (.setCaption caption)
          emit (.setKeyRepeat 500 24)) := .bind (.emit rfl) fun _ => .emit rfl
        exact (hshow.refits _).snug w₁.fit_fitFrame.snug

theorem Window.fit_mapWorld {w : Window} {world : World} (h : world.display.calls = w.display.calls) :
    (w.mapWorld fun _ => world).fit = w.fit :=
  congrArg (fun calls => Fit.mk (calls.toList.filterMap Call.mode?) w.size w.panel.menu) h

/-- The runs of a program at a window on which nobody else draws, with whether the menu has been removed since the
window on the screen was set. -/
inductive Watched (g : Engine) : Machine Window → (removed : Bool) → Prop where
  | start {world : World} {caption : Value} {dimensions : Option (Int × Int)} {w : Window} {vars : Variables} :
      Window.open world caption dimensions = .ok w → Watched g ⟨{ vars }, w⟩ false
  | pass {m : Machine Window} {removed : Bool} (world : World) : world.display.calls = m.world.display.calls →
      Watched g m removed → Watched g ⟨m.state, m.world.mapWorld fun _ => world⟩ removed
  | step {m m' : Machine Window} {removed : Bool} : Watched g m removed → g.step Window.host m = (m', .ok ()) →
      Watched g m' (m.world.fit.removed m'.world.fit removed)
  | wait {m : Machine Window} {removed : Bool} {e : Option Event} {w : Window} : Watched g m removed →
      Window.waitEvent.run.run m.world = (.ok e, w) → Watched g ⟨m.state, w⟩ (m.world.fit.removed w.fit removed)
  | wake {m m' : Machine Window} {removed : Bool} (e : Event) : Watched g m removed →
      g.resume Window.host 0 e m = (m', .ok ()) → Watched g m' removed

namespace Watched

variable {g : Engine} {m : Machine Window} {removed : Bool}

theorem stands (wf : g.program.WellFormed) (hm : Watched g m removed) : m.world.fit.Stands removed := by
  induction hm with
  | start hopen => exact .snug (Window.open_snug hopen)
  | pass world hcalls _ ih => exact (congrArg (Window.Fit.Stands · _) (Window.fit_mapWorld hcalls)).mpr ih
  | step _ hstep ih => exact (Engine.step_shifts wf hstep).stands ih
  | wait _ hwait ih => exact (Window.waitEvent_shifts hwait).stands ih
  | wake e _ hresume ih => exact (congrArg (Window.Fit.Stands · _) (Engine.fit_resume hresume)).mpr ih

theorem not_removed (wf : g.program.WellFormed) (hno : ∀ st ∈ g.program.statements, st.action ≠ .call .setMenu [])
    (hm : Watched g m removed) : removed = false := by
  induction hm with
  | start _ => rfl
  | pass _ _ _ ih => exact ih
  | step _ hstep ih =>
    rw [ih]
    refine (Engine.step_shifts wf hstep).removed_eq_false ?_
    rintro ⟨st, hst, haction⟩
    exact hno st hst haction
  | wait _ hwait ih =>
    rw [ih]
    exact (Window.waitEvent_shifts hwait).removed_eq_false id
  | wake _ _ _ ih => exact ih

/-- The window on the screen fits canvas and menu bar, unless the menu has been removed since it was set. -/
theorem fits_iff {source : String} {pedantic : Bool} {p : Program} (hp : Program.parse source pedantic = .ok p)
    (maxStack : Int) (trace : Bool) {m : Machine Window} {removed : Bool} (hm : Watched ⟨p, maxStack, trace⟩ m removed) :
    let w := m.world
    (w.display.modes.getLast? = some (w.size.1, w.size.2 + w.menuHeight) ↔ removed = false) ∧
    (removed = true →
      w.panel.menu = [] ∧ w.display.modes.getLast? = some (w.size.1, w.size.2 + Window.menuBarHeight)) ∧
    (∀ m', Engine.step ⟨p, maxStack, trace⟩ Window.host m = (m', .ok ()) → w.panel.menu ≠ [] →
      m'.world.panel.menu = [] → m'.world.display.modes = w.display.modes) ∧
    ((∀ st ∈ p.statements, st.action ≠ .call .setMenu []) → removed = false) := by
  obtain ⟨lines, hlines, rfl⟩ := Program.parse_eq_ofLines hp
  have wf := Program.ofLines_wellFormed hlines
  have hstands := hm.stands wf
  refine ⟨hstands.snug_iff, ?_, ?_, fun hno => hm.not_removed wf hno⟩
  · rintro rfl
    cases hstands with
    | bare hmenu hlast => exact ⟨hmenu, hlast⟩
  · exact fun m' hstep hmenu hmenu' => (Engine.step_shifts wf hstep).modes_eq hmenu hmenu'

theorem fits_iff_removed :
    ∃ (p : Program) (m : Machine Window), Program.parse "SetMenu(\"a\",IGNORE,ENDPOPUP) SetMenu()" false = .ok p ∧
      Watched ⟨p, 10000, false⟩ m true ∧ m.world.panel.menu = [] ∧
      m.world.display.modes.getLast? = some (m.world.size.1, m.world.size.2 + 22) ∧
      m.world.display.modes.getLast? ≠ some (m.world.size.1, m.world.size.2 + m.world.menuHeight) := by
  have hrun : (Program.parse "SetMenu(\"a\",IGNORE,ENDPOPUP) SetMenu()" false).toOption.map (fun p =>
      (Window.open {} (.text "c") none).toOption.map fun w =>
        let x := Engine.step ⟨p, 10000, false⟩ Window.host ⟨{}, w⟩
        let y := Engine.step ⟨p, 10000, false⟩ Window.host x.1
        decide (x.2 = .ok () ∧ y.2 = .ok () ∧
          x.1.world.fit.removed y.1.world.fit (w.fit.removed x.1.world.fit false) = true)) =
      some (some true) := by decide +kernel
  obtain ⟨p, hparse, hrun⟩ := Except.exists_of_map_toOption hrun
  obtain ⟨w, hopen, hrun⟩ := Except.exists_of_map_toOption hrun
  obtain ⟨hx, hy, hremoved⟩ := of_decide_eq_true hrun
  have hstart : Watched ⟨p, 10000, false⟩ ⟨{}, w⟩ false := .start hopen
  have hend := (hstart.step (Prod.ext rfl hx)).step (Prod.ext rfl hy)
  rw [hremoved] at hend
  have hfits := fits_iff hparse 10000 false hend
  obtain ⟨hmenu, hlast⟩ := hfits.2.1 rfl
  exact ⟨p, _, hparse, hend, hmenu, hlast, fun h => by cases hfits.1.mp h⟩

end Watched

end GraphicsBatch
