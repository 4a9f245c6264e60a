import GraphicsBatch.Proofs.Deadlines
import GraphicsBatch.Proofs.Dispatch

/-!
# Runs at a window

While a program runs at a window, events come in and time passes. Whatever happens, the window can be redrawn, its
deadlines can be told from the clock, and the numbers of the program have 64 bits.
-/

namespace GraphicsBatch

/-! ## Times and places -/

namespace Binary64

/-- A time at which a wait can be over. -/
def IsDeadline (x : Float) : Prop := Under 955 .positive x

theorem isDeadline_of_wait {c ms : Float} {n : Int} (hc : IsTime c) (hn : 0 ≤ n ∧ n < 2 ^ 63) (hms : ofInt n = .ok ms) :
    IsDeadline (c + ms / 1000) := by
  obtain ⟨x, hx, hunder⟩ := under_ofInt (j := 63) hn.1 hn.2 (by decide)
  obtain rfl : x = ms := Except.ok.inj (hx.symm.trans hms)
  have hquotient := hunder.div_thousand (by decide) (by decide)
  exact (hc : Under 953 .positive c).add (hquotient.mono (by decide)) (by decide) (by decide)

theorem IsDeadline.left {d c : Float} (hd : IsDeadline d) (hc : IsTime c) :
    ∃ left, truncate ((d - c) * 1000) = .ok left := by
  obtain ⟨s, hdiff⟩ := Under.sub hd (hc.mono (by decide)) (by decide) (by decide)
  have hprod := hdiff.mul_thousand (by decide) (by decide)
  obtain ⟨left, hleft, -⟩ := Under.truncate (n := 968) hprod
  exact ⟨left, hleft⟩

end Binary64

/-- No click is further away than rectangles can tell. -/
def DisplayEvent.Plausible : DisplayEvent → Prop
  | .click p _ => p.stored?.isSome = true
  | _ => True

/-! ## Windows in order -/

namespace Window.Situation

/-- The scale is that of some coordinates, and deadlines and events are such as can be told. -/
structure Steady (s : Situation) : Prop where
  scale : ∃ system, s.scale = Outline.programScale system
  deadline : ∀ d, s.panel.deadline = some d → Binary64.IsDeadline d
  awaits : ∀ e, s.Awaits e → e.Plausible

/-- Besides, the window can be redrawn. -/
structure Orderly (s : Situation) : Prop extends s.Steady where
  names : s.panel.menu.Measurable
  popup : s.PopupFits

variable {s s' : Situation}

theorem Orderly.presentable (hs : s.Orderly) : s.Presentable := ⟨hs.names, hs.popup⟩

theorem Orderly.later (hs : s.Orderly) (h : s.Later s') : s'.Orderly where
  names := h.menu ▸ hs.names
  popup := h.popup hs.popup
  scale := h.scale ▸ hs.scale
  deadline := h.deadline ▸ hs.deadline
  awaits e he := by
    rcases h.awaits e he with rfl | he
    · trivial
    · exact hs.awaits e he

end Window.Situation

/-- Requests that are not to forget the menu, where names can be measured and waits have 64 bits. -/
def Request.Tame : Request → Prop
  | .forward c args => c ≠ .setMenu ∧ (c = .waitInput → args = [] ∨ ∃ n, args = [.int n] ∧ Fits n)
  | .showMenu menu => menu.Measurable
  | _ => True

theorem Instruction.of_setMenu {c : Command} {args : List Value} (h : ofCall? c args = some .setMenu) : c = .setMenu := by
  have hmem := of_binds h rfl
  simp only [List.mem_cons, List.not_mem_nil, or_false] at hmem
  rcases hmem with rfl | rfl | rfl | rfl
  · cases h
  · cases h
  · rfl
  · rcases args with _ | ⟨a, _ | ⟨b, args⟩⟩ <;> cases h

theorem Inputs.menu_after_forward {c : Command} (hc : c ≠ .setMenu) (args : List Value) (k : Inputs) :
    (k.after (.forward c args)).menu = k.menu := by
  simp only [after]
  cases hi : Instruction.ofCall? c args with
  | none => rfl
  | some i =>
    cases i with
    | setMenu => exact absurd (Instruction.of_setMenu hi) hc
    | _ => rfl

namespace Window

theorem call_wait_orderly {args : List Value} (hargs : args = [] ∨ ∃ n, args = [.int n] ∧ Fits n) {w : Window}
    (hclock : Binary64.IsTime w.panel.world.clock) {d : Float}
    (hd : (host.call (.forward .waitInput args) w).2.panel.deadline = some d) : Binary64.IsDeadline d := by
  rcases hargs with rfl | ⟨n, rfl, hn⟩
  · rw [call_forward (i := .wait .nothing) rfl, carryOut_plain rfl, run_viaPanel] at hd
    cases hd
  · obtain ⟨ms, hms, hwait⟩ := w.panel.startWait_int hn
    rw [call_forward (i := .wait (.int n)) rfl, carryOut_plain rfl, run_viaPanel] at hd
    simp only [Panel.carryOut, hwait, Option.some.injEq] at hd
    rw [← hd]
    exact Binary64.isDeadline_of_wait hclock ⟨by omega, hn.max_lt⟩ hms

theorem Effect.steady {f : Inputs → Inputs} {waits : Prop} {s s' : Situation} (h : Effect f waits s s') (hs : s.Steady)
    (hdeadline : ∀ d, s'.panel.deadline = some d → Binary64.IsDeadline d) : s'.Steady where
  scale := by
    rcases h.scale with hsame | hset
    · exact hsame ▸ hs.scale
    · exact hset
  deadline := hdeadline
  awaits e he := by
    rcases h.awaits e he with rfl | he
    · trivial
    · exact hs.awaits e he

theorem Effect.orderly {f : Inputs → Inputs} {waits : Prop} {s s' : Situation} (h : Effect f waits s s')
    (hs : s.Orderly) (hmenu : s'.panel.menu = s.panel.menu)
    (hdeadline : ∀ d, s'.panel.deadline = some d → Binary64.IsDeadline d) : s'.Orderly where
  toSteady := h.steady hs.toSteady hdeadline
  names := hmenu ▸ hs.names
  popup index hindex := by
    rcases h.popup with hsame | hnone
    · exact hmenu ▸ hs.popup index (hsame ▸ hindex)
    · cases hnone.symm.trans hindex

theorem showMenu_orderly {menu : Menu} (hmenu : menu.Measurable) {w : Window} (hw : w.situation.Steady) :
    (host.call (.showMenu menu) w).2.situation.Orderly := by
  obtain ⟨w', hrun, hw'⟩ := run_showMenu menu w
  simp only [host, call, hrun, hw']
  exact ⟨⟨hw.scale, hw.deadline, hw.awaits⟩, hmenu, fun _ h => by cases h⟩

theorem call_orderly {r : Request} (hr : r.Tame) {w : Window} (hclock : Binary64.IsTime w.panel.world.clock)
    (hw : w.situation.Orderly) : (host.call r w).2.situation.Orderly := by
  have heffect := call_effect r w
  have hmenu := congrArg Inputs.menu heffect.inputs
  cases r with
  | showMenu menu => exact showMenu_orderly hr hw.toSteady
  | forward c args =>
    refine heffect.orderly hw (hmenu.trans (Inputs.menu_after_forward hr.1 args _)) ?_
    by_cases hc : c = .waitInput
    · subst hc
      exact fun d hd => call_wait_orderly (hr.2 rfl) hclock hd
    · refine heffect.deadline ?_ ▸ hw.deadline
      rintro ⟨_, ⟨⟩⟩
      exact hc rfl
  | checkEvents | bindMouse _ _ | bindKey _ _ => exact heffect.orderly hw hmenu (heffect.deadline nofun ▸ hw.deadline)

end Window

/-! ## Statements -/

theorem Slot.Holds.measurable {slot : Slot} (hslot : slot ∈ Signature.menu.slots) {a : Argument} (h : slot.Holds a)
    (s : State) : (s.resolve a).length?.isSome = true := by
  obtain ⟨kind, value⟩ := a
  obtain ⟨rfl, htakes⟩ := h
  simp only [Signature.slots, List.mem_cons, List.not_mem_nil, or_false] at hslot
  rcases hslot with rfl | rfl | rfl | rfl <;> cases value <;>
    first | rfl | simp [Slot.Takes, Slot.str, Slot.menuLabel, Slot.token] at htakes

theorem Menu.measurable_of_args {s : State} {args : List Argument} {menu : Menu}
    (hargs : (Command.signature .setMenu).Admits args) (h : Menu.ofArgs (args.map s.resolve) = .ok menu) :
    menu.Measurable := by
  intro i hi
  rcases Menu.mem_of_build h hi with hi | ⟨hname, -⟩
  · cases hi
  · obtain ⟨a, ha, hname⟩ := List.mem_map.mp hname
    obtain ⟨slot, hslot, hholds⟩ := MenuArgs.exists_slot hargs ha
    rw [← hname]
    exact hholds.measurable hslot s

namespace Planned

variable {p : Program} {maxStack : Int} {s : State} {a : Action} {pl : Plan}

theorem tame (h : Planned p maxStack s a pl) (hproper : a.Proper) (hs : s.Every Fits)
    (hmenu : ∀ args, a ≠ .call .setMenu args) : ∀ r ∈ pl.requests, r.Tame := by
  intro r hr
  cases h with
  | plain c =>
    obtain rfl := List.mem_singleton.mp hr
    refine ⟨?_, fun _ => .inl rfl⟩
    rintro rfl
    cases hproper
  | wait args =>
    obtain rfl := List.mem_singleton.mp hr
    have hargs : (Command.signature .waitInput).Admits args := hproper
    refine ⟨nofun, fun _ => ?_⟩
    rcases hargs.of_waitInput s with hnil | ⟨n, hint⟩
    · exact .inl hnil
    · exact .inr ⟨n, hint, hs.resolve id hargs (by rw [hint]; exact List.mem_singleton.mpr rfl)⟩
  | messageBox _ | setWaitMode _ =>
    obtain rfl := List.mem_singleton.mp hr
    exact ⟨nofun, nofun⟩
  | setMouse _ | setKeyboard _ _ =>
    rcases List.mem_cons.mp hr with rfl | hr
    · exact ⟨nofun, nofun⟩
    · obtain ⟨_, -, rfl⟩ := List.mem_map.mp hr
      trivial
  | setMenu _ => exact absurd rfl (hmenu _)
  | forward hc =>
    obtain rfl := List.mem_singleton.mp hr
    simp only [List.mem_cons, List.not_mem_nil, or_false, not_or] at hc
    exact ⟨hc.2.2.2.2.1, fun hwait => absurd hwait hc.1⟩
  | _ => cases hr

theorem orderly (h : Planned p maxStack s a pl) (hproper : a.Proper) (hs : s.Every Fits) {w : Window}
    (hclock : Binary64.IsTime w.panel.world.clock) (hw : w.situation.Orderly) :
    (Window.host.askAll pl.requests w).2.situation.Orderly := by
  by_cases hmenu : ∃ args, a = .call .setMenu args
  · obtain ⟨args, rfl⟩ := hmenu
    cases h with
    | setMenu hmenu =>
      obtain ⟨d, hforget⟩ := Window.call_hears (r := .forward .setMenu (args.map s.resolve)) rfl w
      have heffect := Window.call_effect (.forward .setMenu (args.map s.resolve)) w
      rw [Plan.asking, Host.askAll_cons_snd (Host.ask_eq_ok.mpr (Prod.ext hforget rfl)), Host.askAll_singleton_snd]
      refine Window.showMenu_orderly (Menu.measurable_of_args hproper hmenu) (heffect.steady hw.toSteady ?_)
      exact heffect.deadline (by rintro ⟨_, ⟨⟩⟩) ▸ hw.deadline
    | forward hc => simp at hc
  · have hcall : ∀ r ∈ pl.requests, ∀ w : Window, Binary64.IsTime w.panel.world.clock ∧ w.situation.Orderly →
        Binary64.IsTime (Window.host.call r w).2.panel.world.clock ∧ (Window.host.call r w).2.situation.Orderly := by
      rintro r hr w ⟨hclock, hw⟩
      have hsame : (Window.host.call r w).2.panel.world.clock = w.panel.world.clock := (Window.call_effect r w).clock
      have htame := h.tame hproper hs (fun args ha => hmenu ⟨args, ha⟩) r hr
      exact ⟨hsame ▸ hclock, Window.call_orderly htame hclock hw⟩
    exact (Host.askAll_keeps hcall (And.intro hclock hw)).2

end Planned

/-- A run at a window that is in order: numbers have 64 bits, and both sides agree on whether a wait has a limit. -/
structure Machine.Orderly (g : Engine) (m : Machine Window) : Prop where
  sound : g.Sound m.state
  every : m.state.Every Fits
  window : m.world.situation.Orderly
  wait : m.state.status = .suspended → (m.world.panel.deadline = none ↔ m.state.timeout = none)

theorem Machine.Orderly.later {g : Engine} {m : Machine Window} (hm : m.Orderly g) {w : Window}
    (h : m.world.situation.Later w.situation) : (⟨m.state, w⟩ : Machine Window).Orderly g := by
  have hdeadline : w.panel.deadline = m.world.panel.deadline := h.deadline
  exact ⟨hm.sound, hm.every, hm.window.later h, fun hwait => hdeadline ▸ hm.wait hwait⟩

theorem Window.follows_clock {w w' : Window} (h : host.Follows w w') : w'.panel.world.clock = w.panel.world.clock :=
  @Host.Follows.view_eq _ _ host (·.panel.world.clock) (fun r w => (call_effect r w).clock) (fun _ _ => rfl) w w' h

theorem Window.times : host.Times (·.panel.deadline) fun _ => True where
  note _ _ := ⟨trivial, rfl⟩
  call _ _ := trivial
  wait _ hd := call_wait_deadline hd

namespace Engine

variable {g : Engine} {m : Machine Window} {st : Statement}

theorem perform_orderly (wf : g.program.WellFormed) (hst : g.program.statements[m.state.pc]? = some st)
    (hevery : m.state.Every Fits) (hclock : Binary64.IsTime m.world.panel.world.clock) (hm : m.world.situation.Orderly) :
    (g.perform Window.host st m).1.world.situation.Orderly := by
  refine (perform_keeps (h := Window.host)
    (P := fun w => Binary64.IsTime w.panel.world.clock ∧ w.situation.Orderly) ?_ ?_ ⟨hclock, hm⟩).2
  · rintro w ⟨hclock, hw⟩
    have hsame : (Window.host.call .checkEvents w).2.panel.world.clock = w.panel.world.clock :=
      (Window.call_effect .checkEvents w).clock
    exact ⟨hsame ▸ hclock, Window.call_orderly (r := .checkEvents) trivial hclock hw⟩
  · rintro pl w hpl ⟨hclock, hw⟩
    have hsame : (Window.host.askAll pl.requests w).2.panel.world.clock = w.panel.world.clock :=
      Window.follows_clock (Host.follows_askAll pl.requests w)
    exact ⟨hsame ▸ hclock, hpl.orderly (wf.proper _ st hst) hevery hclock hw⟩

theorem carries_orderly (wf : g.program.WellFormed) : g.Carries Window.host fun m =>
    m.state.Every Fits ∧ Binary64.IsTime m.world.panel.world.clock ∧ m.world.situation.Orderly where
  place _ hm := ⟨⟨hm.1.vars, hm.1.mouse⟩, hm.2⟩
  note _ hm := hm
  terminate hm := ⟨⟨hm.1.vars, hm.1.mouse⟩, hm.2⟩
  perform hrun hst hm := by
    refine ⟨(carries_every id wf Window.answers).perform hrun hst hm.1, ?_, perform_orderly wf hst hm.1 hm.2.1 hm.2.2⟩
    rw [Window.follows_clock follows_perform]
    exact hm.2.1

theorem step_orderly (wf : g.program.WellFormed) (hclock : Binary64.IsTime m.world.panel.world.clock) (hm : m.Orderly g) :
    (g.step Window.host m).1.Orderly g := by
  obtain ⟨hevery, -, hwindow⟩ := (carries_orderly wf).step (m := m) ⟨hm.every, hclock, hm.window⟩
  exact ⟨step_sound wf hm.sound, hevery, hwindow, ((preserves_inStep Window.times g).step ⟨trivial, hm.wait⟩).wait⟩

end Engine

/-! ## Events -/

/-- Input with parts that fit: clicks are at whole numbers, and keys and entries are no lists. -/
def Input.Whole : Input → Prop
  | .click x y => ∃ a b, x = .int a ∧ y = .int b
  | .key code char _ => code.isScalar = true ∧ char.isScalar = true
  | .menu id => ∃ n, id = .int n
  | _ => True

theorem Window.Sends.read {e : Event} (h : Sends e) : ∃ i, e.read = .input i ∧ i.Whole := by
  cases h with
  | quit => exact ⟨.quit, rfl, trivial⟩
  | click x y button => exact ⟨_, rfl, x, y, rfl, rfl⟩
  | key code char ctrl => exact ⟨_, rfl, by cases code <;> rfl, by cases char <;> rfl⟩
  | select id => exact ⟨_, rfl, id, rfl⟩

namespace Engine

variable {g : Engine} {s : State} {i : Input}

theorem wakeAt_ne_misfit {o : Option String} : g.wakeAt s o ≠ .error .misfit := by
  intro h
  cases o with
  | none => cases h
  | some l =>
    simp only [wakeAt] at h
    generalize g.program.target l none = x at h
    cases x <;> cases h

theorem react_ok (wf : g.program.WellFormed) (hs : g.Sound s) (hwait : s.status = .suspended) (hi : i.Whole) :
    ∃ r, g.react s i = .ok r ∧ ∀ s' ∈ r, g.Sound s' := by
  refine (react_sound wf hs hwait i).resolve_right fun hmisfit => ?_
  cases i with
  | click x y =>
    obtain ⟨a, b, rfl, rfl⟩ := hi
    rcases s.bindings.matchMouse_finds (.int a) (.int b) with hfound | ⟨-, -, hunfit⟩
    · simp only [react, hfound] at hmisfit
      generalize (s.bindings.mouse.filter (·.covers (.int a) (.int b))).getLast? = found at hmisfit
      cases found with
      | none => cases hmisfit
      | some r => exact wakeAt_ne_misfit (s := (s.set r.varX a).set r.varY b) (o := some r.label) hmisfit
    · cases hunfit
  | key code char ctrl =>
    rcases s.bindings.matchKey_finds hi.1 char ctrl with hfound | ⟨-, -, hunfit⟩
    · simp only [react, hfound] at hmisfit
      exact wakeAt_ne_misfit hmisfit
    · cases hi.2.symm.trans hunfit
  | menu id =>
    obtain ⟨n, rfl⟩ := hi
    exact wakeAt_ne_misfit hmisfit
  | timeout => cases hmisfit
  | quit => cases hmisfit

theorem react_fits (hi : i.Whole) (hs : s.Every Fits) {s' : State} (h : g.react s i = .ok (some s')) : s'.Every Fits := by
  rcases react_cases h with ⟨x, y, r, t, rfl, hmatch, rfl⟩ | ⟨t, rfl⟩
  · obtain ⟨a, b, rfl, rfl⟩ := hi
    obtain ⟨hr, hcovers⟩ := Bindings.mem_of_matchMouse hmatch
    have hcorners := hs.mouse r hr
    have hbetween : ∀ {lower upper n : Int}, Fits lower → Fits upper → min lower upper ≤ n → n ≤ max lower upper →
        Fits n := by
      unfold Fits
      omega
    simp only [MouseRegion.covers, Datum.between, Bool.and_eq_true, decide_eq_true_eq] at hcovers
    obtain ⟨⟨hx, hx'⟩, hy, hy'⟩ := hcovers
    have hset := (hs.set r.varX (hbetween hcorners.x1 hcorners.x2 hx hx')).set r.varY
      (hbetween hcorners.y1 hcorners.y2 hy hy')
    exact ⟨hset.vars, hset.mouse⟩
  · exact ⟨hs.vars, hs.mouse⟩

theorem react_running {s' : State} (h : g.react s i = .ok (some s')) : s'.status = .running := by
  rcases react_cases h with ⟨_, _, _, _, -, -, rfl⟩ | ⟨_, rfl⟩ <;> rfl

variable {m : Machine Window} {e : Event}

theorem resume_orderly (wf : g.program.WellFormed) (hwait : m.state.status = .suspended)
    (he : e = { kind := .timeout } ∨ Window.Sends e) (hm : m.Orderly g) : (g.resume Window.host 0 e m).1.Orderly g := by
  obtain ⟨i, hread, hwhole⟩ : ∃ i, e.read = .input i ∧ i.Whole := by
    rcases he with rfl | he
    · exact ⟨.timeout, rfl, trivial⟩
    · exact he.read
  by_cases hquit : i = .quit
  · subst hquit
    simp only [resume, hwait, hread, ne_eq, not_true, if_false]
    exact ⟨hm.sound.terminate, ⟨hm.every.vars, hm.every.mouse⟩, hm.window, fun h => by cases h⟩
  · obtain ⟨r, hreact, hsound⟩ := react_ok wf hm.sound hwait hwhole
    cases r with
    | none =>
      rw [resume_of_react_none hwait hread hquit hreact]
      exact hm
    | some s' =>
      rw [resume_of_react hwait hread hreact]
      refine ⟨hsound s' rfl, react_fits hwhole hm.every hreact, hm.window, fun hwait' => ?_⟩
      cases (react_running hreact).symm.trans hwait'

end Engine

/-! ## All that can happen -/

/-- The runs of a program at a window, from variables of 64 bits on. At any time events come in and time passes. -/
inductive Underway (g : Engine) : Machine Window → Prop where
  | start {world : World} {caption : Value} {dimensions : Option (Int × Int)} {w : Window} {vars : Variables} :
      Window.open world caption dimensions = .ok w →
      (∀ e, e ∈ world.display.posted ∨ e ∈ world.display.events → e.Plausible) →
      (∀ e ∈ vars.entries, Fits e.2) → Underway g ⟨{ vars }, w⟩
  /-- Some events are in the queue now, and others are to come. -/
  | arrive {m : Machine Window} (here later : List DisplayEvent) : (∀ e, e ∈ here ∨ e ∈ later → e.Plausible) →
      Underway g m → Underway g ⟨m.state, m.world.mapDisplay fun d => { d with posted := d.posted ++ here, events := later }⟩
  | pass {m : Machine Window} (time : Float) : Underway g m →
      Underway g ⟨m.state, m.world.mapWorld fun world => { world with clock := time }⟩
  | step {m m' : Machine Window} : Underway g m → Binary64.IsTime m.world.panel.world.clock →
      g.step Window.host m = (m', .ok ()) → Underway g m'
  /-- A wait begins. -/
  | look {m : Machine Window} {w : Window} : Underway g m → m.state.status = .suspended →
      Window.refresh.run.run m.world = (.ok (), w) → Underway g ⟨m.state, { w with panel := w.panel.reap }⟩
  /-- A wait goes on. -/
  | idle {m : Machine Window} {w : Window} : Underway g m → m.state.status = .suspended →
      Window.round.run.run m.world = (.ok none, w) → Underway g ⟨m.state, w⟩
  /-- A wait is over. -/
  | deliver {m m' : Machine Window} {e : Event} {w : Window} : Underway g m → m.state.status = .suspended →
      Window.round.run.run m.world = (.ok (some e), w) →
      g.resume Window.host 0 e ⟨m.state, Window.host.note (Frontend.eventNote e) w⟩ = (m', .ok ()) → Underway g m'

theorem Underway.run {g : Engine} {fuel : Nat} {m m' : Machine Window} (hm : Underway g m)
    (hclock : Binary64.IsTime m.world.panel.world.clock) (h : g.run Window.host fuel m = (m', .ok ())) :
    Underway g m' ∧ m'.world.panel.world.clock = m.world.panel.world.clock := by
  induction fuel generalizing m with
  | zero =>
    cases h
    exact ⟨hm, rfl⟩
  | succ fuel ih =>
    unfold Engine.run at h
    split at h
    · cases h
      exact ⟨hm, rfl⟩
    · split at h
      · rename_i m₁ hstep
        have hsame := Window.follows_clock (Engine.follows_step (g := g) (h := Window.host) (m := m))
        rw [hstep] at hsame
        obtain ⟨hm', hsame'⟩ := ih (hm.step hclock hstep) (hsame ▸ hclock) h
        exact ⟨hm', hsame'.trans hsame⟩
      · cases h

theorem Window.open_situation {world : World} {caption : Value} {dimensions : Option (Int × Int)} {w : Window}
    (h : Window.open world caption dimensions = .ok w) :
    w.situation = ⟨({ world := { world with display := world.display.push .start } } : Panel).undrawn, none,
      Outline.metricScale⟩ := by
  -- All that happens after the start is drawing.
  have hcanvas : ∀ size : Int × Int, Draws (fun _ => False) (do
      let canvas ← newSurface size.1 size.2 false
      emit (.fill canvas.id ⟨.white, none⟩)
      modify fun w => { w with canvas }) := fun size =>
    .bind (.newSurface _ _ _) fun _ => .bind (.emit rfl) fun _ => .modify (fun _ => ⟨rfl, rfl⟩) fun _ _ => rfl
  have hshow : Draws (fun _ => False) (do
      fitFrame
      emit (.setCaption caption)
      emit (.setKeyRepeat 500 24)) := .bind .fitFrame fun _ => .bind (.emit rfl) fun _ => .emit rfl
  unfold Window.open at h
  dsimp only at h
  split at h
  · cases h
  · split at h
    · cases h
    · split at h
      rename_i w₁ hrun
      split at h
      · cases h
      · cases h
        rw [hshow.keeps, ← congrArg (·.2.situation) hrun]
        exact (hcanvas _).keeps _

theorem Window.open_clock {world : World} {caption : Value} {dimensions : Option (Int × Int)} {w : Window}
    (h : Window.open world caption dimensions = .ok w) : w.panel.world.clock = world.clock :=
  congrArg (·.panel.world.clock) (open_situation h)

theorem Underway.orderly {g : Engine} (wf : g.program.WellFormed) {m : Machine Window} (h : Underway g m) :
    m.Orderly g := by
  induction h with
  | start hopen hevents hvars =>
    have hsituation := Window.open_situation hopen
    refine ⟨?_, ⟨hvars, nofun⟩, ?_, nofun⟩
    · exact ⟨Nat.zero_le _, nofun, Int.le_max_left 0 g.maxStack, nofun, fun _ => rfl, (g.sound_init).bound, nofun⟩
    · rw [hsituation]
      exact ⟨⟨⟨.text "METRIC", rfl⟩, nofun, hevents⟩, nofun, nofun⟩
  | @arrive m here later hevents _ ih =>
    refine ⟨ih.sound, ih.every, ⟨⟨ih.window.scale, ih.window.deadline, fun e he => ?_⟩, ih.window.names, ih.window.popup⟩,
      ih.wait⟩
    rcases he with he | he
    · rcases List.mem_append.mp he with he | he
      · exact ih.window.awaits e (.inl he)
      · exact hevents e (.inl he)
    · exact hevents e (.inr he)
  | pass time _ ih =>
    exact ⟨ih.sound, ih.every,
      ⟨⟨ih.window.scale, ih.window.deadline, ih.window.awaits⟩, ih.window.names, ih.window.popup⟩, ih.wait⟩
  | step _ hclock hstep ih =>
    have hnext := Engine.step_orderly wf hclock ih
    rwa [hstep] at hnext
  | @look m w _ _ hrefresh ih =>
    have hkeeps := (Window.Draws.refresh fun _ => False.elim : Window.Draws (fun _ => False) Window.refresh).keeps m.world
    rw [hrefresh] at hkeeps
    refine ih.later (hkeeps ▸ ?_)
    exact ⟨rfl, rfl, rfl, id, fun _ => .inr⟩
  | @idle m w _ _ hround ih =>
    have hlater := Window.round_later.tends m.world
    rw [hround] at hlater
    exact ih.later hlater
  | @deliver m m' e w _ hwait hround hresume ih =>
    have hlater := Window.round_later.tends m.world
    -- An event that a round gives has parameters that the engine can read.
    have hsends := Window.round_gives m.world (some e) (congrArg Prod.fst hround) e rfl
    rw [hround] at hlater
    have hnext := Engine.resume_orderly (m := ⟨m.state, Window.host.note (Frontend.eventNote e) w⟩) wf hwait hsends
      (ih.later hlater)
    rwa [hresume] at hnext

end GraphicsBatch
