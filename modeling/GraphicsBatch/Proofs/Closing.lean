import GraphicsBatch.Proofs.Turns
import GraphicsBatch.Proofs.Underway

/-!
# A window is closed

Three loops take events from the queue of a window: statements look into it before they are carried out, a message box
takes events until one answers it, and a wait takes events until one is for the program. Once the window is being closed
none of them loses the news, and the run comes to its end.
-/

namespace GraphicsBatch

namespace Window

/-! ## Work that does not fail -/

/-- The work `act` has a result in a situation that is `fine`. -/
def Works {α : Type} (fine : Situation → Prop) (act : Draw α) : Prop :=
  ∀ w : Window, fine w.situation → ∃ a, (act.run.run w).1 = .ok a

namespace Works

variable {α β : Type} {fine fine' : Situation → Prop} {act : Draw α}

theorem pure (a : α) : Works fine (Pure.pure a : Draw α) := fun _ _ => ⟨a, rfl⟩

theorem lift {x : Except Failure α} {a : α} (h : x = .ok a) : Works fine (liftM x : Draw α) := fun _ _ => ⟨a, h⟩

theorem draws (h : Draws fine act) : Works fine act := h.succeeds

theorem mono (h : Works fine act) (hfine : ∀ s, fine' s → fine s) : Works fine' act := fun w hw => h w (hfine _ hw)

theorem bind {R : Situation → Situation → Prop} {k : α → Draw β} (h : Works fine act) (hact : Tends R act)
    (hR : ∀ s s', fine s → R s s' → fine' s') (hk : ∀ a, Works fine' (k a)) : Works fine (act >>= k) := by
  intro w hw
  obtain ⟨a, ha⟩ := h w hw
  obtain ⟨b, hb⟩ := hk a _ (hR _ _ hw (hact.tends w))
  rw [run_bind]
  generalize act.run.run w = x at ha hb
  obtain ⟨r, w'⟩ := x
  obtain rfl : r = .ok a := ha
  exact ⟨b, hb⟩

theorem bindDraws {k : α → Draw β} (h : Draws fine act) (hk : ∀ a, Works fine (k a)) : Works fine (act >>= k) := by
  refine bind (R := fun s s' => s' = s) h.succeeds ⟨h.keeps, h.blind⟩ ?_ hk
  rintro s _ hs rfl
  exact hs

theorem look {k : Window → Draw α} (hk : ∀ w : Window, fine w.situation → Works (· = w.situation) (k w)) :
    Works fine (get >>= k) :=
  fun w hw => hk w hw w rfl

theorem modify {f : Window → Window} {k : Unit → Draw β} (hf : ∀ w : Window, fine w.situation → fine' (f w).situation)
    (hk : Works fine' (k ())) : Works fine (modify f >>= k) :=
  fun w hw => hk (f w) (hf w hw)

end Works

/-! ## Clicks -/

theorem stored?_natAbs {n : Int} (h : (GraphicsBatch.stored? n).isSome = true) : n.natAbs ≤ 2 ^ 63 := by
  unfold GraphicsBatch.stored? at h
  split at h
  · omega
  · cases h

theorem stored?_bounds {p : Pixel} (h : p.stored?.isSome = true) : p.x.natAbs ≤ 2 ^ 63 ∧ p.y.natAbs ≤ 2 ^ 63 := by
  obtain ⟨q, hq⟩ := Option.isSome_iff_exists.mp h
  obtain ⟨x, hx, hq⟩ := Option.bind_eq_some_iff.mp hq
  obtain ⟨y, hy, -⟩ := Option.bind_eq_some_iff.mp hq
  exact ⟨stored?_natAbs (Option.isSome_of_eq_some hx), stored?_natAbs (Option.isSome_of_eq_some hy)⟩

theorem unscaled_ok {n : Int} (hn : n.natAbs < 2 ^ 64) (system : Value) :
    ∃ x, Binary64.ofInt n = .ok x ∧ ∃ r, Binary64.truncate (x / Outline.programScale system) = .ok r := by
  obtain ⟨x, s, hx, hunder⟩ := Binary64.under_ofInt_natAbs (j := 64) hn (by decide)
  have hquotient : Binary64.Under 129 s (x / Outline.programScale system) := by
    unfold Outline.programScale
    split
    · exact hunder.div (rfl : Outline.metricScale.toModel.unpack = _) (by decide) (by decide) (by decide) (by decide)
    · exact hunder.div (rfl : (1 : Float).toModel.unpack = _) (by decide) (by decide) (by decide) (by decide)
  obtain ⟨r, hr, -⟩ := Binary64.Under.truncate (n := 129) hquotient
  exact ⟨x, hx, r, hr⟩

theorem clickEvent_ok {w : Window} (hscale : ∃ system, w.scale = Outline.programScale system) {p : Pixel}
    (hp : p.stored?.isSome = true) (button : Int) : ∃ o, w.clickEvent p button = .ok o := by
  obtain ⟨system, hscale⟩ := hscale
  obtain ⟨hx, hy⟩ := stored?_bounds hp
  have hheight : 0 ≤ w.menuHeight ∧ w.menuHeight ≤ 22 := by
    unfold menuHeight menuBarHeight
    split <;> omega
  obtain ⟨x, hx, a, ha⟩ := unscaled_ok (n := p.x) (by omega) system
  obtain ⟨y, hy, b, hb⟩ := unscaled_ok (n := p.y - w.menuHeight) (by omega) system
  unfold clickEvent
  rw [hscale]
  dsimp only
  split
  · rw [hx, hy]
    exact ⟨_, by simp only [bind, Except.bind, ha, hb]; rfl⟩
  · exact ⟨none, rfl⟩

/-! ## The menu -/

/-- The window can be redrawn, and has this menu. -/
structure Situation.Shows (menu : Menu) (s : Situation) : Prop extends s.Presentable where
  menu : s.panel.menu = menu

theorem Situation.Shows.browses {menu : Menu} {s s' : Situation} (hs : s.Shows menu) (h : s.BrowsesWith menu s') :
    s'.Presentable := by
  have hpanel := (h hs.menu).panel
  exact ⟨hpanel ▸ hs.names, (h hs.menu).popup hs.popup⟩

section

variable {p : Pixel} (hp : p.stored?.isSome = true)

include hp

theorem hit_ok (r : Rect) : ∃ b, hit r p = .ok b := by
  obtain ⟨q, hq⟩ := Option.isSome_iff_exists.mp hp
  exact ⟨r.contains q, by simp only [hit, hq]⟩

theorem clickedEntry_ok (members : List (Member × Rect)) : ∃ o, clickedEntry p members = .ok o := by
  induction members with
  | nil => exact ⟨none, rfl⟩
  | cons x members ih =>
    obtain ⟨_ | item, rect⟩ := x
    · exact ih
    · obtain ⟨b, hb⟩ := hit_ok hp rect
      simp only [clickedEntry, hb]
      cases b with
      | true => exact ⟨some item, rfl⟩
      | false => exact ih

theorem clickHeaders_works (entries : List (Nat × Popup × Rect)) : Works (fun _ => True) (clickHeaders p entries) := by
  induction entries with
  | nil => exact .pure none
  | cons x entries ih =>
    obtain ⟨b, hb⟩ := hit_ok hp x.2.2
    refine .bindDraws (.lift fun _ _ => ⟨b, hb⟩) fun hits => ?_
    dsimp only
    split
    · split
      · exact .pure _
      · exact .modify (fun _ _ => trivial) ih
    · exact ih

theorem barClick_works (menu : Menu) : Works (Situation.Shows menu) (barClick p menu) := by
  refine .bindDraws (.headers fun _ hs => hs.names) fun rects => ?_
  refine .bind ((clickHeaders_works hp _).mono fun _ _ => trivial)
    (clickHeaders_browses (index_lt_of_header menu rects)) (fun _ _ => Situation.Shows.browses) fun found => ?_
  cases found with
  | some e => exact .pure _
  | none => exact .bindDraws (.refresh fun _ => id) fun _ => .pure none

theorem menuClick_works : Works Situation.Presentable (menuClick p) := by
  refine .look fun w hw => ?_
  split
  · rename_i index hindex
    have hlt : index < w.panel.menu.length := hw.popup index hindex
    have hclosed : ∀ w' : Window, w'.situation = w.situation →
        Situation.Shows w.panel.menu { w' with openPopup := none }.situation := by
      intro w' hw'
      have hpanel := congrArg (·.panel.menu) hw'
      exact ⟨⟨hpanel ▸ hw.names, fun _ h => by cases h⟩, hpanel⟩
    refine .modify hclosed ?_
    dsimp only
    rw [if_neg (by omega)]
    refine .bindDraws (.popupRects fun s hs => ⟨hs.names, hs.menu ▸ hlt⟩) fun members => ?_
    obtain ⟨found, hfound⟩ := clickedEntry_ok hp members
    refine .bindDraws (.lift fun _ _ => ⟨found, hfound⟩) fun found => ?_
    cases found with
    | none => exact barClick_works hp _
    | some item => exact .bindDraws (.refresh fun _ hs => hs.toPresentable) fun _ => .pure _
  · exact (barClick_works hp _).mono fun s hs => hs ▸ ⟨hw, rfl⟩

end

theorem eventOf_works {e : DisplayEvent} (he : e.Plausible) : Works Situation.Orderly (eventOf e) := by
  refine .look fun w hw => ?_
  have hfine : ∀ s, s = w.situation → s.Presentable := by
    rintro s rfl
    exact hw.presentable
  have hrefresh : Works Situation.Presentable (do
      refresh
      return (none : Option Event)) := .bindDraws (.refresh fun _ => id) fun _ => .pure none
  cases e with
  | quit => exact .pure _
  | other => exact .pure _
  | exposed => exact hrefresh.mono hfine
  | resize width height => exact .bindDraws (.resize _) fun _ => hrefresh.mono hfine
  | click p button =>
    dsimp only
    split
    · exact (menuClick_works he).mono hfine
    · obtain ⟨o, ho⟩ := clickEvent_ok hw.scale he button
      exact .lift (a := o) (Except.mapError_eq_ok.mpr ho)
  | key code modifiers typed =>
    dsimp only
    split
    · refine .modify (fun w' hw' => ?_) hrefresh
      exact ⟨(hfine _ hw').names, nofun⟩
    · exact .pure _

/-! ## Waits -/

theorem nextEvent_posted {w : Window} {e : DisplayEvent} {rest : List DisplayEvent} (h : w.display.posted = e :: rest)
    (ms : Int) : ∃ w', (nextEvent ms).run.run w = (.ok e, w') ∧
      w'.situation = w.situation.withQueue rest w.display.events := by
  generalize hw₁ : w.mapDisplay (·.push (.wait ms)) = w₁
  have htake : w₁.display.takeEvent = (some e, { w₁.display with posted := rest }) := by
    have hposted : w₁.display.posted = e :: rest := hw₁ ▸ h
    simp only [Display.takeEvent, hposted]
  refine ⟨w₁.mapDisplay fun _ => { w₁.display with posted := rest }, ?_, by rw [← hw₁]; rfl⟩
  have hemit : (emit (.wait ms)).run.run w = (.ok (), w₁) := hw₁ ▸ rfl
  unfold nextEvent
  rw [run_bind, hemit]
  dsimp only
  rw [run_get_bind, htake]
  rfl

theorem waitLimit_ok {w : Window} (hw : w.situation.Orderly) (hclock : Binary64.IsTime w.panel.world.clock) :
    ∃ limit focus, waitLimit.run.run w = (.ok limit, w.mapDisplay fun d => { d with focus }) ∧
      (limit = none → w.panel.deadline ≠ none) := by
  cases hdeadline : w.panel.deadline with
  | none => exact ⟨some 0, w.display.focus, run_waitLimit_untimed hdeadline, fun h => by cases h⟩
  | some d =>
    obtain ⟨left, hleft⟩ := (hw.deadline d hdeadline).left hclock
    have hremaining : w.panel.remaining = .ok (some (max 0 left)) := by
      simp only [Panel.remaining, hdeadline, hleft]
      rfl
    -- Asking for the focus writes down the answer and nothing else.
    have hfocus : ∃ focus, w.display.hasFocus.2 = { w.display with focus } := by
      unfold Display.hasFocus
      split <;> exact ⟨_, rfl⟩
    obtain ⟨focus, hfocus⟩ := hfocus
    unfold waitLimit
    rw [run_get_bind, hremaining]
    by_cases hmode : w.panel.waitMode = .text "FOCUS"
    · refine ⟨if w.display.hasFocus.1 then none else some focusPoll, focus, ?_, fun _ h => by cases h⟩
      change (if w.panel.waitMode = .text "FOCUS" then _ else _ : Draw (Option Int)).run.run w = _
      rw [if_pos hmode]
      change (Except.ok _, w.mapDisplay fun _ => w.display.hasFocus.2) = _
      rw [hfocus]
      rfl
    · refine ⟨if max 0 left ≤ 0 then none else some (max 0 left), w.display.focus, ?_, fun _ h => by cases h⟩
      change (if w.panel.waitMode = .text "FOCUS" then _ else _ : Draw (Option Int)).run.run w = _
      rw [if_neg hmode]
      rfl

/-- A round of a wait ends it, or takes the event at the head of the queue. -/
theorem round_ok {w : Window} (hw : w.situation.Orderly) (hclock : Binary64.IsTime w.panel.world.clock)
    {e : DisplayEvent} {rest : List DisplayEvent} (hposted : w.display.posted = e :: rest) :
    ∃ o w', round.run.run w = (.ok o, w') ∧ w'.panel.world.clock = w.panel.world.clock ∧
      (o = some { kind := .timeout } ∧ w.panel.deadline ≠ none ∧ w'.display.posted = w.display.posted ∨
        w'.display.posted = rest ∧ (e = .quit → o = some { kind := .quit }) ∧ ∀ x ∈ o, Sends x) := by
  obtain ⟨limit, focus, hlimit, hover⟩ := waitLimit_ok hw hclock
  unfold round
  rw [run_bind, hlimit]
  cases limit with
  | none => exact ⟨_, _, rfl, rfl, .inl ⟨rfl, hover rfl, rfl⟩⟩
  | some ms =>
    generalize hw₁ : (w.mapDisplay fun d => { d with focus }) = w₁
    have hposted₁ : w₁.display.posted = e :: rest := hw₁ ▸ hposted
    obtain ⟨w₂, hnext, hw₂⟩ := nextEvent_posted hposted₁ ms
    -- What is left in the queue was there before, so the window stays orderly.
    have hlater : w.situation.Later w₂.situation := by
      rw [hw₂, ← hw₁]
      refine ⟨rfl, rfl, rfl, id, fun e' he' => .inr (he'.imp_left fun he' => ?_)⟩
      exact (congrArg (e' ∈ ·) hposted).mpr (List.mem_cons_of_mem _ he')
    have he : e.Plausible := hw.awaits e (.inl ((congrArg (e ∈ ·) hposted).mpr List.mem_cons_self))
    obtain ⟨o, ho⟩ := eventOf_works he w₂ (hw.later hlater)
    have hpanel := ((eventOf_browses e).tends w₂).panel
    rw [hw₂, ← hw₁] at hpanel
    dsimp only
    rw [run_bind, hnext]
    dsimp only
    have hclock' := congrArg (·.world.clock) hpanel
    have hposted' := congrArg (·.world.display.posted) hpanel
    refine ⟨o, _, Prod.ext ho rfl, hclock', .inr ⟨hposted', ?_, eventOf_sends e w₂ o ho⟩⟩
    rintro rfl
    exact (Except.ok.inj ho).symm

/-- How a wait of a window that is being closed is over: the program is told, or the news is still in the queue. -/
inductive Heeds (w w' : Window) : Event → Prop where
  | quit : Heeds w w' { kind := .quit }
  | timeout : w.panel.deadline ≠ none → .quit ∈ w'.display.posted → Heeds w w' { kind := .timeout }
  | other {e : Event} : Sends e → .quit ∈ w'.display.posted → w'.display.posted.length < w.display.posted.length →
      Heeds w w' e

theorem Heeds.after {w₀ w w' : Window} {e : Event} (h : Heeds w w' e) (hdeadline : w.panel.deadline = w₀.panel.deadline)
    (hlength : w.display.posted.length ≤ w₀.display.posted.length) : Heeds w₀ w' e := by
  cases h with
  | quit => exact .quit
  | timeout hover hquit => exact .timeout (hdeadline ▸ hover) hquit
  | other hsends hquit hshorter => exact .other hsends hquit (by omega)

theorem await_ok {fuel : Nat} {w : Window} (hw : w.situation.Orderly) (hclock : Binary64.IsTime w.panel.world.clock)
    (hquit : .quit ∈ w.display.posted) (hfuel : w.display.posted.length ≤ fuel) :
    ∃ e w', (await fuel).run.run w = (.ok (some e), w') ∧ w'.panel.world.clock = w.panel.world.clock ∧ Heeds w w' e := by
  induction fuel generalizing w with
  | zero =>
    rw [List.eq_nil_of_length_eq_zero (Nat.le_zero.mp hfuel)] at hquit
    cases hquit
  | succ fuel ih =>
    obtain ⟨e, rest, hposted⟩ := List.exists_cons_of_ne_nil (List.ne_nil_of_mem hquit)
    obtain ⟨o, w', hround, hsame, hends⟩ := round_ok hw hclock hposted
    have hlater := round_later.tends w
    rw [hround] at hlater
    rw [await, run_bind, hround]
    -- The round gave a timeout with the queue as it was, or it took the first event.
    rcases hends with ⟨rfl, hover, hkept⟩ | ⟨hrest, hnews, hsends⟩
    · exact ⟨_, w', rfl, hsame, .timeout hover (hkept ▸ hquit)⟩
    · have hlength : w'.display.posted.length < w.display.posted.length := by
        rw [hrest, hposted, List.length_cons]
        omega
      by_cases he : e = .quit
      · obtain rfl := hnews he
        exact ⟨_, w', rfl, hsame, .quit⟩
      · have hquit' : .quit ∈ w'.display.posted := by
          rw [hposted, List.mem_cons] at hquit
          exact hrest ▸ hquit.resolve_left (Ne.symm he)
        -- An event that means nothing to the program is passed over, and the queue is shorter by it.
        cases o with
        | some x => exact ⟨x, w', rfl, hsame, .other (hsends x rfl) hquit' hlength⟩
        | none =>
          have hw' : w'.situation.Orderly := hw.later hlater
          obtain ⟨x, w'', hrun, hsame', hheeds⟩ := ih hw' (hsame ▸ hclock) hquit' (by omega)
          exact ⟨x, w'', hrun, hsame'.trans hsame, hheeds.after hlater.deadline (by omega)⟩

theorem refresh_ok {w : Window} (hw : w.situation.Presentable) :
    ∃ w', refresh.run.run w = (.ok (), w') ∧ w'.situation = w.situation := by
  have hrefresh : Draws Situation.Presentable refresh := .refresh fun _ => id
  obtain ⟨_, hok⟩ := hrefresh.succeeds w hw
  exact ⟨_, Prod.ext hok rfl, hrefresh.keeps w⟩

theorem waitEvent_ok {w : Window} (hw : w.situation.Orderly) (hclock : Binary64.IsTime w.panel.world.clock)
    (hquit : .quit ∈ w.display.posted) :
    ∃ e w', waitEvent.run.run w = (.ok (some e), w') ∧ w'.panel.world.clock = w.panel.world.clock ∧ Heeds w w' e := by
  obtain ⟨w₁, hrun, hkeeps⟩ := refresh_ok hw.presentable
  -- Programs that were started and have ended are forgotten before the wait.
  generalize hw₂ : { w₁ with panel := w₁.panel.reap } = w₂
  have hlater : w.situation.Later w₂.situation := by
    rw [← hkeeps, ← hw₂]
    exact ⟨rfl, rfl, rfl, id, fun _ => .inr⟩
  have hposted : w₂.display.posted = w.display.posted := hw₂ ▸ congrArg (·.panel.world.display.posted) hkeeps
  have hsame : w₂.panel.world.clock = w.panel.world.clock := hw₂ ▸ congrArg (·.panel.world.clock) hkeeps
  have hrounds : w₂.display.posted.length ≤ waitRounds w₂ := by
    unfold waitRounds Display.pending
    omega
  obtain ⟨e, w', hawait, hsame', hheeds⟩ := await_ok (hw.later hlater) (hsame ▸ hclock) (hposted ▸ hquit) hrounds
  refine ⟨e, w', ?_, hsame'.trans hsame, hheeds.after hlater.deadline (hposted ▸ Nat.le_refl _)⟩
  rw [waitEvent, run_bind, hrun]
  subst hw₂
  exact hawait

/-! ## Message boxes -/

theorem dialogAnswer_ok (buttons : List Rect) (chosen : Int) {e : DisplayEvent} (he : e.Plausible) :
    ∃ o, dialogAnswer buttons chosen e = .ok o := by
  cases e with
  | click p button =>
    obtain ⟨q, hq⟩ := Option.isSome_iff_exists.mp he
    simp only [dialogAnswer, clickedButton, hq]
    split <;> exact ⟨_, rfl⟩
  | _ => exact ⟨_, rfl⟩

/-- A message box is answered by the end of the window at the latest. -/
theorem awaitAnswer_ok (buttons : List Rect) (chosen : Int) {fuel : Nat} {w : Window}
    (hqueue : ∀ e ∈ w.display.posted, e.Plausible) (hquit : .quit ∈ w.display.posted)
    (hfuel : w.display.posted.length ≤ fuel) :
    ∃ n w', (awaitAnswer buttons chosen fuel).run.run w = (.ok n, w') ∧ .quit ∈ w'.display.posted := by
  induction fuel generalizing w with
  | zero =>
    rw [List.eq_nil_of_length_eq_zero (Nat.le_zero.mp hfuel)] at hquit
    cases hquit
  | succ fuel ih =>
    obtain ⟨e, rest, hposted⟩ := List.exists_cons_of_ne_nil (List.ne_nil_of_mem hquit)
    obtain ⟨w₁, hnext, hw₁⟩ := nextEvent_posted hposted 0
    have hrest : w₁.display.posted = rest := congrArg (·.panel.world.display.posted) hw₁
    rw [hposted] at hqueue hquit hfuel
    rw [awaitAnswer, run_bind, hnext]
    dsimp only
    by_cases he : e = .quit
    · -- The closing is put back at the end of the queue for the engine to find.
      subst he
      exact ⟨chosen, _, rfl, List.mem_append_right _ List.mem_cons_self⟩
    · rw [if_neg he]
      have hquit' := (List.mem_cons.mp hquit).resolve_left (Ne.symm he)
      obtain ⟨answer, hanswer⟩ := dialogAnswer_ok buttons chosen (hqueue e List.mem_cons_self)
      rw [hanswer]
      cases answer with
      | some n => exact ⟨n, w₁, rfl, hrest ▸ hquit'⟩
      | none =>
        refine ih ?_ (hrest ▸ hquit') ?_
        · exact fun x hx => hqueue x (List.mem_cons_of_mem _ (hrest ▸ hx))
        · rw [hrest]
          exact Nat.le_of_succ_le_succ hfuel

theorem settleDialog_ok (buttons : List Rect) (chosen : Int) {w : Window} (hw : w.situation.Presentable)
    (hqueue : ∀ e ∈ w.display.posted, e.Plausible) (hquit : .quit ∈ w.display.posted) :
    ∃ n w', (settleDialog buttons chosen).run.run w = (.ok n, w') ∧ .quit ∈ w'.display.posted := by
  have hpending : w.display.posted.length ≤ w.display.pending + 1 := by
    unfold Display.pending
    omega
  obtain ⟨n, w₁, hanswer, hquit₁⟩ := awaitAnswer_ok buttons chosen hqueue hquit hpending
  have htakes := ((awaitAnswer_takes buttons chosen (w.display.pending + 1)).tends w).later
  rw [hanswer] at htakes
  obtain ⟨w₂, hrun, hkeeps⟩ := refresh_ok (w := w₁) ⟨htakes.menu ▸ hw.names, htakes.popup hw.popup⟩
  have hposted : w₂.display.posted = w₁.display.posted := congrArg (·.panel.world.display.posted) hkeeps
  refine ⟨n, w₂, ?_, hposted ▸ hquit₁⟩
  unfold settleDialog
  rw [run_get_bind, run_bind, hanswer]
  dsimp only
  rw [run_bind, hrun]
  rfl

/-! ## Statements -/

theorem call_checkEvents_peeks (w : Window) : (host.call .checkEvents w).2.display.peeks = w.display.peeks + 1 := by
  simp only [host, call, isClosing, Display.peekQuit]
  split <;> rfl

theorem call_checkEvents_closing {w : Window} (h : .quit ∈ w.display.posted) :
    (host.call .checkEvents w).1 = .error .exit := by
  have hpeek : w.isClosing.1 = true := by
    have hposted := List.contains_iff_mem.mpr h
    unfold isClosing Display.peekQuit
    dsimp only
    split <;> simp only [hposted, Bool.or_true]
  simp only [host, call, hpeek, if_true]

end Window

/-- The end of a run whose next statement is not carried out. -/
inductive CutShort (g : Engine) (m : Machine Window) : Machine Window → Prop where
  /-- The program is at its end. -/
  | atEnd : g.program.statements[m.state.pc]? = none → CutShort g m ⟨m.state.terminate, m.world⟩
  /-- The host has been asked for events, and nothing else. -/
  | asked {st : Statement} : g.program.statements[m.state.pc]? = some st →
      CutShort g m ⟨(g.entering Window.host st m).state.terminate,
        Window.host.note Engine.shutDown (Window.host.call .checkEvents (g.entering Window.host st m).world).2⟩

theorem CutShort.terminated {g : Engine} {m m' : Machine Window} (h : CutShort g m m') :
    m'.state.status = .terminated := by
  cases h <;> rfl

namespace Engine

variable {g : Engine} {m : Machine Window}

theorem step_atEnd (hrun : m.state.status = .running) (hend : g.program.statements[m.state.pc]? = none) :
    g.step Window.host m = (⟨m.state.terminate, m.world⟩, .ok ()) := by
  simp only [step, hrun, hend, ne_eq, not_true, if_false]

theorem step_closing (hrun : m.state.status = .running) (hquit : .quit ∈ m.world.display.posted) :
    ∃ m', g.step Window.host m = (m', .ok ()) ∧ CutShort g m m' := by
  cases hst : g.program.statements[m.state.pc]? with
  | none => exact ⟨_, step_atEnd hrun hst, .atEnd hst⟩
  | some st =>
    have hquit' : .quit ∈ (g.entering Window.host st m).world.display.posted := by
      unfold entering
      dsimp only
      split <;> exact hquit
    have hask := Host.ask_eq_error.mpr ⟨.exit, Prod.ext (Window.call_checkEvents_closing hquit') rfl, rfl⟩
    refine ⟨_, ?_, .asked hst⟩
    rw [step_eq_conclude hrun hst]
    simp only [perform, hask]
    rfl

theorem run_closing (hrun : m.state.status = .running) (hquit : .quit ∈ m.world.display.posted) (n : Nat) :
    ∃ m', g.run Window.host (n + 1) m = (m', .ok ()) ∧ CutShort g m m' := by
  obtain ⟨m', hstep, hcut⟩ := step_closing (g := g) hrun hquit
  refine ⟨m', ?_, hcut⟩
  simp only [run, hrun, ne_eq, not_true, if_false, hstep]
  exact run_of_ne_running (by simp [hcut.terminated]) n

end Engine

/-! ## Events -/

/-- What an event can do to a program that waits while the window is being closed. No statement is carried out. -/
inductive Heeded (g : Engine) (e : Event) (m : Machine Window) : Machine Window → Prop where
  | closed : e.read = .input .quit → Heeded g e m ⟨m.state.terminate, Window.host.note Engine.shutDown m.world⟩
  | woken {i : Input} {s : State} {m' : Machine Window} : e.read = .input i → g.react m.state i = .ok (some s) →
      CutShort g ⟨s, m.world⟩ m' → Heeded g e m m'
  | ignored {i : Input} : e.read = .input i → i ≠ .quit → g.react m.state i = .ok none →
      .quit ∈ m.world.display.posted → Heeded g e m m

/-- If the program waits on, then the queue is shorter. -/
theorem Engine.resume_closing {g : Engine} (wf : g.program.WellFormed) {s : State} {w w' : Window}
    (hm : (⟨s, w⟩ : Machine Window).Orderly g) (hwait : s.status = .suspended) {e : Event} (he : w.Heeds w' e) (n : Nat) :
    ∃ m', g.resume Window.host (n + 1) e ⟨s, w'⟩ = (m', .ok ()) ∧ Heeded g e ⟨s, w'⟩ m' ∧
      (m'.state.status = .terminated ∨ m' = ⟨s, w'⟩ ∧ .quit ∈ w'.display.posted ∧
        w'.display.posted.length < w.display.posted.length) := by
  -- If the event wakes the program, the first step of the run that follows sees the closing.
  have hcut : ∀ {i s'}, e.read = .input i → g.react s i = .ok (some s') → .quit ∈ w'.display.posted →
      ∃ m', g.resume Window.host (n + 1) e ⟨s, w'⟩ = (m', .ok ()) ∧ Heeded g e ⟨s, w'⟩ m' ∧
        m'.state.status = .terminated := by
    intro i s' hread hreact hquit
    obtain ⟨m', hrun, hcut⟩ := run_closing (g := g) (m := ⟨s', w'⟩) (react_running hreact) hquit n
    exact ⟨m', (resume_of_react (m := ⟨s, w'⟩) hwait hread hreact).trans hrun, .woken hread hreact hcut, hcut.terminated⟩
  cases he with
  | quit =>
    refine ⟨_, ?_, .closed rfl, .inl rfl⟩
    simp only [resume, hwait, ne_eq, not_true, if_false]
    rfl
  | timeout hover hquit =>
    -- The panel has a deadline just if the engine has a timeout.
    have htimeout : s.timeout.isSome = true := by
      rw [Option.isSome_iff_ne_none]
      exact fun hnone => hover ((hm.wait hwait).mpr hnone)
    have hreact : g.react s .timeout = .ok (some s.advance.wake) := by simp only [react, htimeout, if_true]
    obtain ⟨m', hresume, hheeded, hterminated⟩ := hcut rfl hreact hquit
    exact ⟨m', hresume, hheeded, .inl hterminated⟩
  | other hsends hquit hshorter =>
    obtain ⟨i, hread, hwhole⟩ := hsends.read
    by_cases hi : i = .quit
    · subst hi
      refine ⟨_, ?_, .closed hread, .inl rfl⟩
      simp only [resume, hwait, hread, ne_eq, not_true, if_false]
    · obtain ⟨r, hreact, -⟩ := react_ok wf hm.sound hwait hwhole
      cases r with
      | none =>
        exact ⟨_, resume_of_react_none (m := ⟨s, w'⟩) hwait hread hi hreact, .ignored hread hi hreact hquit,
          .inr ⟨rfl, hquit, hshorter⟩⟩
      | some s' =>
        obtain ⟨m', hresume, hheeded, hterminated⟩ := hcut hread hreact hquit
        exact ⟨m', hresume, hheeded, .inl hterminated⟩

/-! ## Runs -/

/-- How a run comes to its end while the window is being closed: events may be waited for, and no statement is carried
out. -/
inductive Closes (g : Engine) : Machine Window → Machine Window → Prop where
  | ended {m : Machine Window} : m.state.status = .terminated → Closes g m m
  | cut {m m' : Machine Window} : m.state.status = .running → CutShort g m m' → Closes g m m'
  | heard {m m₁ m' : Machine Window} {e : Event} {w : Window} : m.state.status = .suspended →
      Window.waitEvent.run.run m.world = (.ok (some e), w) →
      Heeded g e ⟨m.state, Window.host.note (Frontend.eventNote e) w⟩ m₁ → Closes g m₁ m' → Closes g m m'

theorem Closes.terminated {g : Engine} {m m' : Machine Window} (h : Closes g m m') : m'.state.status = .terminated := by
  induction h with
  | ended h => exact h
  | cut _ h => exact h.terminated
  | heard _ _ _ _ ih => exact ih

theorem Window.Heeds.note {w w' : Window} {e : Event} (h : w.Heeds w' e) (r : Record) : w.Heeds (host.note r w') e := by
  cases h with
  | quit => exact .quit
  | timeout hover hquit => exact .timeout hover hquit
  | other hsends hquit hshorter => exact .other hsends hquit hshorter

theorem Frontend.serve_closing {g : Engine} (wf : g.program.WellFormed) {m : Machine Window} (hm : m.Orderly g)
    (hwait : m.state.status = .suspended) (hclock : Binary64.IsTime m.world.panel.world.clock)
    (hquit : .quit ∈ m.world.display.posted) {fuel : Nat} (hfuel : m.world.display.posted.length ≤ fuel) :
    ∃ m', Window.frontend.serve g fuel m = (m', .ok ()) ∧ Closes g m m' := by
  induction fuel generalizing m with
  | zero =>
    rw [List.eq_nil_of_length_eq_zero (Nat.le_zero.mp hfuel)] at hquit
    cases hquit
  | succ fuel ih =>
    obtain ⟨e, w, hevent, hsame, hheeds⟩ := Window.waitEvent_ok hm.window hclock hquit
    obtain ⟨m₁, hresume, hheeded, hstatus⟩ := Engine.resume_closing wf hm hwait (hheeds.note (eventNote e)) fuel
    have hserve : Window.frontend.serve g (fuel + 1) m = Window.frontend.serve g fuel m₁ := by
      have hevent' : Window.frontend.waitEvent m.world = (.ok (some e), w) := hevent
      have hresume' : g.resume Window.frontend.toHost (fuel + 1) e ⟨m.state, Window.frontend.note (eventNote e) w⟩ =
        (m₁, .ok ()) := hresume
      rw [serve, if_neg (by simp [hwait]), hevent']
      simp only [hresume']
    rw [hserve]
    rcases hstatus with hover | ⟨rfl, hquit', hshorter⟩
    · exact ⟨m₁, serve_of_ne_suspended (by simp [hover]) fuel, .heard hwait hevent hheeded (.ended hover)⟩
    · have hlater := Window.waitEvent_later.tends m.world
      rw [hevent] at hlater
      obtain ⟨m', hserve', hcloses⟩ := ih (hm.later (w := Window.host.note (eventNote e) w) hlater) hwait (hsame ▸ hclock)
        hquit' (Nat.le_of_lt_succ (Nat.lt_of_lt_of_le hshorter hfuel))
      exact ⟨m', hserve', .heard hwait hevent hheeded hcloses⟩

theorem Frontend.runAndServe_closing {g : Engine} (wf : g.program.WellFormed) {m : Machine Window} (hm : m.Orderly g)
    (hclock : Binary64.IsTime m.world.panel.world.clock) (hquit : .quit ∈ m.world.display.posted) {fuel : Nat}
    (hfuel : m.world.display.posted.length ≤ fuel) :
    ∃ m', Window.frontend.runAndServe g fuel m = (m', .ok ()) ∧ Closes g m m' := by
  have hstill : m.state.status ≠ .running → g.run Window.frontend.toHost fuel m = (m, .ok ()) :=
    fun h => Engine.run_of_ne_running h fuel
  unfold runAndServe
  cases hstatus : m.state.status with
  | running =>
    obtain ⟨n, rfl⟩ : ∃ n, fuel = n + 1 :=
      Nat.exists_eq_add_one.mpr (Nat.lt_of_lt_of_le (List.length_pos_of_mem hquit) hfuel)
    obtain ⟨m', hrun, hcut⟩ := Engine.run_closing (g := g) hstatus hquit n
    have hrun' : g.run Window.frontend.toHost (n + 1) m = (m', .ok ()) := hrun
    simp only [hrun']
    exact ⟨m', serve_of_ne_suspended (by simp [hcut.terminated]) _, .cut hstatus hcut⟩
  | suspended =>
    rw [hstill (by simp [hstatus])]
    exact serve_closing wf hm hstatus hclock hquit hfuel
  | terminated =>
    rw [hstill (by simp [hstatus])]
    exact ⟨m, serve_of_ne_suspended (by simp [hstatus]) fuel, .ended hstatus⟩

namespace Engine

/-- Closing the window is never lost: once the news is in the queue, the run is brought to its end. -/
theorem closing_is_heeded {source : String} {pedantic : Bool} {p : Program}
    (hp : Program.parse source pedantic = .ok p) (maxStack : Int) (trace : Bool) {m : Machine Window}
    (hm : Underway ⟨p, maxStack, trace⟩ m) (hclock : Binary64.IsTime m.world.panel.world.clock) :
    let g : Engine := ⟨p, maxStack, trace⟩
    (∀ (buttons : List Rect) (chosen : Int) (w : Window), w.panel.menu = m.world.panel.menu →
      w.openPopup = m.world.openPopup → (∀ e ∈ w.display.posted, e.Plausible) → .quit ∈ w.display.posted →
      ∃ n w', (Window.settleDialog buttons chosen).run.run w = (.ok n, w') ∧ .quit ∈ w'.display.posted) ∧
    (.quit ∈ m.world.display.posted →
      (m.state.status = .running → ∃ m', g.step Window.host m = (m', .ok ()) ∧ CutShort g m m') ∧
      (m.state.status = .suspended → ∀ rounds, m.world.display.posted.length ≤ rounds →
        ∃ e w, (Window.await rounds).run.run m.world = (.ok (some e), w) ∧
          ∀ fuel, ∃ m', g.resume Window.host (fuel + 1) e ⟨m.state, Window.host.note (Frontend.eventNote e) w⟩ =
            (m', .ok ()) ∧ Heeded g e ⟨m.state, Window.host.note (Frontend.eventNote e) w⟩ m') ∧
      ∀ fuel, m.world.display.posted.length ≤ fuel →
        ∃ m', Window.frontend.runAndServe g fuel m = (m', .ok ()) ∧ m'.state.status = .terminated ∧ Closes g m m') := by
  obtain ⟨lines, hlines, rfl⟩ := Program.parse_eq_ofLines hp
  have wf := Program.ofLines_wellFormed hlines
  have horderly := hm.orderly wf
  refine ⟨fun buttons chosen w hmenu hpopup hqueue hquit => ?_, fun hquit => ⟨?_, ?_, ?_⟩⟩
  · refine Window.settleDialog_ok buttons chosen ⟨?_, fun index hindex => ?_⟩ hqueue hquit
    · exact (congrArg Menu.Measurable hmenu).mpr horderly.window.names
    · have hlt := horderly.window.popup index (hpopup.symm.trans hindex)
      exact (congrArg (index < ·.length) hmenu).mpr hlt
  · exact fun hrun => step_closing hrun hquit
  · intro hwait rounds hrounds
    obtain ⟨e, w, hawait, -, hheeds⟩ := Window.await_ok horderly.window hclock hquit hrounds
    refine ⟨e, w, hawait, fun fuel => ?_⟩
    obtain ⟨m', hresume, hheeded, -⟩ := resume_closing wf horderly hwait (hheeds.note (Frontend.eventNote e)) fuel
    exact ⟨m', hresume, hheeded⟩
  · intro fuel hfuel
    obtain ⟨m', hserve, hcloses⟩ := Frontend.runAndServe_closing wf horderly hclock hquit hfuel
    exact ⟨m', hserve, hcloses.terminated, hcloses⟩

/-- The window is closed after a click that nothing is bound to. -/
theorem closing_is_heeded_waiting :
    ∃ (p : Program) (m : Machine Window), Program.parse "a: SetKeyboard(\"b\",a) WaitInput(5)" false = .ok p ∧
      Underway ⟨p, 10000, false⟩ m ∧ Binary64.IsTime m.world.panel.world.clock ∧ m.state.status = .suspended ∧
      m.world.display.posted = [.exposed, .click ⟨5, 5⟩ 1, .key 98 0 "b", .quit] ∧
      ∃ m', Window.frontend.runAndServe ⟨p, 10000, false⟩ 4 m = (m', .ok ()) ∧ m'.state.status = .terminated ∧
        Closes ⟨p, 10000, false⟩ m m' := by
  have hrun : (Program.parse "a: SetKeyboard(\"b\",a) WaitInput(5)" false).toOption.map (fun p =>
      (Window.open {} (.text "c") none).toOption.map fun w =>
        let x := run ⟨p, 10000, false⟩ Window.host 9 ⟨{}, w⟩
        decide (x.2 = .ok () ∧ x.1.state.status = .suspended ∧ x.1.world.display.posted = [])) =
      some (some true) := by decide +kernel
  obtain ⟨p, hparse, hrun⟩ := Except.exists_of_map_toOption hrun
  obtain ⟨w, hopen, hrun⟩ := Except.exists_of_map_toOption hrun
  obtain ⟨hok, hwait, hposted⟩ := of_decide_eq_true hrun
  have hclock : Binary64.IsTime w.panel.world.clock := by
    rw [Window.open_clock hopen]
    exact Binary64.isTime_of_decode (x := 0) rfl (by decide)
  have hstart : Underway ⟨p, 10000, false⟩ ⟨{}, w⟩ := .start hopen (by simp) (by simp)
  generalize hx : run ⟨p, 10000, false⟩ Window.host 9 ⟨{}, w⟩ = x at hok hwait hposted
  obtain ⟨m, r⟩ := x
  obtain rfl : r = .ok () := hok
  obtain ⟨hm, hsame⟩ := hstart.run hclock hx
  have hqueue : ∀ e, e ∈ [.exposed, .click ⟨5, 5⟩ 1, .key 98 0 "b", .quit] ∨ e ∈ [] → DisplayEvent.Plausible e := by
    simp [DisplayEvent.Plausible]
    decide
  have hlate := hm.arrive _ _ hqueue
  have hclock' : Binary64.IsTime m.world.panel.world.clock := hsame ▸ hclock
  have hposted' := congrArg (· ++ [.exposed, .click ⟨5, 5⟩ 1, .key 98 0 "b", .quit]) hposted
  refine ⟨p, _, hparse, hlate, hclock', hwait, hposted', ?_⟩
  refine ((closing_is_heeded hparse 10000 false hlate hclock').2 ?_).2.2 4 ?_
  · exact (congrArg (.quit ∈ ·) hposted').mpr (by simp)
  · exact Nat.le_of_eq (congrArg List.length hposted')

/-- At the end of a program no events are asked for, though the window is being closed. -/
theorem step_at_end_asks_nothing :
    ∃ (p : Program) (m : Machine Window), Program.parse "MessageBox(OK,1,NOICON,\"a\",\"b\",x)" false = .ok p ∧
      Underway ⟨p, 10000, false⟩ m ∧ m.state.status = .running ∧ .quit ∈ m.world.display.posted ∧
      step ⟨p, 10000, false⟩ Window.host m = (⟨m.state.terminate, m.world⟩, .ok ()) ∧
      (Window.host.call .checkEvents m.world).2 ≠ m.world := by
  have hrun : (Program.parse "MessageBox(OK,1,NOICON,\"a\",\"b\",x)" false).toOption.map (fun p =>
      (Window.open { display := { events := [.quit] } } (.text "c") none).toOption.map fun w =>
        let x := step ⟨p, 10000, false⟩ Window.host ⟨{}, w⟩
        decide (x.2 = .ok () ∧ x.1.state.status = .running ∧ .quit ∈ x.1.world.display.posted ∧
          p.statements[x.1.state.pc]?.isNone = true)) = some (some true) := by decide +kernel
  obtain ⟨p, hparse, hrun⟩ := Except.exists_of_map_toOption hrun
  obtain ⟨w, hopen, hrun⟩ := Except.exists_of_map_toOption hrun
  obtain ⟨hok, hstatus, hquit, hend⟩ := of_decide_eq_true hrun
  generalize hx : step ⟨p, 10000, false⟩ Window.host ⟨{}, w⟩ = x at hok hstatus hquit hend
  obtain ⟨m, r⟩ := x
  obtain rfl : r = .ok () := hok
  have hclock : Binary64.IsTime w.panel.world.clock := by
    rw [Window.open_clock hopen]
    exact Binary64.isTime_of_decode (x := 0) rfl (by decide)
  have hstart : Underway ⟨p, 10000, false⟩ ⟨{}, w⟩ := .start hopen (by simp [DisplayEvent.Plausible]) (by simp)
  have hend := step_atEnd (g := ⟨p, 10000, false⟩) hstatus (Option.isNone_iff_eq_none.mp hend)
  refine ⟨p, m, hparse, hstart.step hclock hx, hstatus, hquit, hend, ?_⟩
  intro hsame
  have hpeeks := m.world.call_checkEvents_peeks
  rw [hsame] at hpeeks
  omega

end Engine

end GraphicsBatch
