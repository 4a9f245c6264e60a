import GraphicsBatch.Proofs.Drawing
import GraphicsBatch.Proofs.Mirrored
import GraphicsBatch.Proofs.Rectangles

/-!
# What requests and waits do at a window

Most requests only draw. The others change what is known about input, the deadline of a wait, the scale or the open popup,
and a message box takes events. A wait takes events too, and it opens and closes popups.
-/

namespace GraphicsBatch

namespace Window

/-! ## Changes of a situation -/

namespace Situation

def posted (s : Situation) : List DisplayEvent := s.panel.world.display.posted

/-- An event is still to be taken. -/
def Awaits (s : Situation) (e : DisplayEvent) : Prop := e ∈ s.posted ∨ e ∈ s.panel.world.display.events

def withQueue (posted events : List DisplayEvent) (s : Situation) : Situation :=
  { s with panel := s.panel.mapWorld (·.mapDisplay fun d => { d with posted, events }) }

/-- The open popup is one of the menu. -/
def PopupFits (s : Situation) : Prop := ∀ index, s.openPopup = some index → index < s.panel.menu.length

/-- Events were taken and nothing else has changed. One that closes the window may have been put back. -/
inductive Takes (s : Situation) : Situation → Prop where
  | intro (posted events : List DisplayEvent) : (∀ e, e ∈ posted ∨ e ∈ events → e = .quit ∨ s.Awaits e) →
      Takes s (s.withQueue posted events)

/-- Time has passed at the window: events were taken, and popups may have been opened or closed. -/
structure Later (s s' : Situation) : Prop where
  inputs : s'.panel.inputs = s.panel.inputs
  deadline : s'.panel.deadline = s.panel.deadline
  scale : s'.scale = s.scale
  popup : s.PopupFits → s'.PopupFits
  awaits : ∀ e, s'.Awaits e → e = .quit ∨ s.Awaits e

class IsPreorder (R : Situation → Situation → Prop) : Prop where
  refl (s : Situation) : R s s
  trans {s s' s'' : Situation} : R s s' → R s' s'' → R s s''

instance : IsPreorder Takes where
  refl s := .intro s.posted _ fun _ => .inr
  trans h h' := by
    obtain ⟨_, _, h⟩ := h
    obtain ⟨_, _, h'⟩ := h'
    exact .intro _ _ fun e he => (h' e he).elim .inl (h e)

instance : IsPreorder Later where
  refl _ := ⟨rfl, rfl, rfl, id, fun _ => .inr⟩
  trans h h' := {
    inputs := h'.inputs.trans h.inputs
    deadline := h'.deadline.trans h.deadline
    scale := h'.scale.trans h.scale
    popup := h'.popup ∘ h.popup
    awaits := fun e he => (h'.awaits e he).elim .inl (h.awaits e) }

/-- Popups may have been opened or closed, and nothing else has changed. -/
structure Browses (s s' : Situation) : Prop where
  panel : s'.panel = s.panel
  scale : s'.scale = s.scale
  popup : s.PopupFits → s'.PopupFits

/-- The same while some menu is shown. -/
def BrowsesWith (menu : Menu) (s s' : Situation) : Prop := s.panel.menu = menu → s.Browses s'

instance : IsPreorder Browses where
  refl _ := ⟨rfl, rfl, id⟩
  trans h h' := ⟨h'.panel.trans h.panel, h'.scale.trans h.scale, h'.popup ∘ h.popup⟩

instance (menu : Menu) : IsPreorder (BrowsesWith menu) where
  refl s _ := IsPreorder.refl s
  trans h h' hmenu := IsPreorder.trans (h hmenu) (h' ((congrArg Panel.menu (h hmenu).panel).trans hmenu))

variable {s s' : Situation}

theorem Later.menu (h : s.Later s') : s'.panel.menu = s.panel.menu := congrArg Inputs.menu h.inputs

theorem Browses.later (h : s.Browses s') : s.Later s' where
  inputs := congrArg Panel.inputs h.panel
  deadline := congrArg Panel.deadline h.panel
  scale := h.scale
  popup := h.popup
  awaits e he := by
    unfold Awaits posted at he ⊢
    rw [h.panel] at he
    exact .inr he

theorem Takes.later (h : s.Takes s') : s.Later s' := by
  obtain ⟨_, _, h⟩ := h
  exact ⟨rfl, rfl, rfl, id, h⟩

end Situation

open Situation (Takes Later Browses BrowsesWith)

/-- The work `act` changes the situation as `R` allows, and it does not look at the log. -/
structure Tends {α : Type} (R : Situation → Situation → Prop) (act : Draw α) : Prop where
  tends (w : Window) : R w.situation (act.run.run w).2.situation
  blind : Blind act

namespace Tends

variable {α β : Type} {R R' : Situation → Situation → Prop} {act : Draw α}

theorem mono (h : Tends R act) (hR : ∀ {s s'}, R s s' → R' s s') : Tends R' act := ⟨fun w => hR (h.tends w), h.blind⟩

theorem modify {f : Window → Window} (hf : ∀ w, R w.situation (f w).situation)
    (hlog : ∀ w log, (f (w.withLog log)).withLog {} = (f w).withLog {}) : Tends R (modify f : Draw Unit) :=
  ⟨hf, .modify hlog⟩

theorem look {k : Window → Draw α} {S : Window → Situation → Situation → Prop}
    (hlog : ∀ w log, k (w.withLog log) = k w) (hS : ∀ w s', S w w.situation s' → R w.situation s')
    (hk : ∀ w, Tends (S w) (k w)) : Tends R (get >>= k) where
  tends w := hS w _ ((hk w).tends w)
  blind := .look hlog fun w => (hk w).blind

theorem liftBind {x : Except Failure α} {k : α → Draw β} (hR : ∀ s, R s s) (hk : ∀ a, Tends R (k a)) :
    Tends R (liftM x >>= k) := by
  cases x with
  | error f => exact ⟨fun _ => hR _, fun _ _ => ⟨rfl, rfl⟩⟩
  | ok a => exact hk a

variable [hR : Situation.IsPreorder R]

theorem draws (h : Draws (fun _ => False) act) : Tends R act :=
  ⟨fun w => h.keeps w ▸ hR.refl _, h.blind⟩

theorem pure (a : α) : Tends R (Pure.pure a : Draw α) := draws (.pure a)

theorem lift (x : Except Failure α) : Tends R (liftM x : Draw α) := ⟨fun _ => hR.refl _, .lift x⟩

theorem throw (f : Failure) : Tends R (MonadExcept.throw f : Draw α) := ⟨fun _ => hR.refl _, .throw f⟩

theorem bind {k : α → Draw β} (h : Tends R act) (hk : ∀ a, Tends R (k a)) : Tends R (act >>= k) where
  tends w := by
    have hact := h.tends w
    rw [run_bind]
    generalize act.run.run w = x at hact
    obtain ⟨_ | a, w'⟩ := x
    · exact hact
    · exact hR.trans hact ((hk a).tends w')
  blind := h.blind.bind fun a => (hk a).blind

end Tends

/-! ## Taking events -/

theorem takeEvent_takes (w : Window) : w.situation.Takes (w.mapDisplay fun _ => w.display.takeEvent.2).situation := by
  unfold Display.takeEvent
  split
  · rename_i e rest hposted
    refine .intro rest w.display.events fun e' he' => .inr (he'.imp_left fun he' => ?_)
    exact (congrArg (e' ∈ ·) hposted).mpr (List.mem_cons_of_mem _ he')
  · split
    · rename_i e rest hevents
      refine .intro w.display.posted rest fun e' he' => .inr (he'.imp_right fun he' => ?_)
      exact (congrArg (e' ∈ ·) hevents).mpr (List.mem_cons_of_mem _ he')
    · exact Situation.IsPreorder.refl _

theorem situation_display {w w' : Window} (h : w.situation = w'.situation) (d : Display) :
    (w.mapDisplay fun _ => d).situation = (w'.mapDisplay fun _ => d).situation := by
  have heq := congrArg (fun s : Situation =>
    Situation.mk (s.panel.mapWorld (·.mapDisplay fun _ => d)).undrawn s.openPopup s.scale) h
  exact heq

theorem tends_display {α : Type} {R : Situation → Situation → Prop} {d : Display} {w : Window}
    (hd : R w.situation (w.mapDisplay fun _ => d).situation) (a : α) :
    Tends (fun s s' => s = w.situation → R s s') (do
      modify (mapDisplay fun _ => d)
      return a) where
  tends w' hw' := by
    rw [hw']
    exact (situation_display hw' d).symm ▸ hd
  blind := .bind (.modify fun _ _ => rfl) fun _ => .pure a

theorem nextEvent_takes : Tends Takes (nextEvent 0) := by
  refine .bind (.draws (.emit rfl)) fun _ => ?_
  refine .look (S := fun w s s' => s = w.situation → s.Takes s') (fun _ _ => rfl) (fun w s' h => h rfl) fun w => ?_
  have htakes := takeEvent_takes w
  generalize w.display.takeEvent = x at htakes
  obtain ⟨_ | e, d⟩ := x
  · exact (Tends.pure _).mono fun h _ => h
  · exact tends_display htakes e

theorem nextEvent_later (timeout : Int) : Tends Later (nextEvent timeout) := by
  refine .bind (.draws (.emit rfl)) fun _ => ?_
  refine .look (S := fun w s s' => s = w.situation → s.Later s') (fun _ _ => rfl) (fun w s' h => h rfl) fun w => ?_
  have htakes := (takeEvent_takes w).later
  generalize w.display.takeEvent = x at htakes
  obtain ⟨_ | e, d⟩ := x
  · refine Tends.mono (R := Later) ?_ fun h _ => h
    dsimp only
    split
    · exact .pure _
    · refine .bind (.lift _) fun ms => ?_
      refine .bind (.modify ?_ fun _ _ => rfl) fun _ => .pure _
      exact fun w => ⟨rfl, rfl, rfl, id, fun _ => .inr⟩
  · exact tends_display htakes e

theorem postEvent_takes : Tends Takes (postEvent .quit) := by
  refine .bind (.draws (.emit rfl)) fun _ => ?_
  refine .modify (fun w => .intro (w.display.posted ++ [.quit]) w.display.events fun e he => ?_) fun _ _ => rfl
  rw [List.mem_append, List.mem_singleton, or_assoc] at he
  rcases he with he | he | he
  · exact .inr (.inl he)
  · exact .inl he
  · exact .inr (.inr he)

/-! ## Message boxes -/

theorem answer_takes {x : Except Failure (Option Int)} {act : Draw Int} (h : Tends Takes act) : Tends Takes (do
    match ← x with
    | some n => return n
    | none => act : Draw Int) := by
  refine .bind (.lift _) fun answer => ?_
  cases answer with
  | none => exact h
  | some n => exact .pure n

theorem awaitAnswer_takes (buttons : List Rect) (chosen : Int) (fuel : Nat) :
    Tends Takes (awaitAnswer buttons chosen fuel) := by
  induction fuel with
  | zero => exact .pure _
  | succ fuel ih =>
    refine .bind nextEvent_takes fun e => ?_
    dsimp only
    split
    · rename_i hquit
      rw [hquit]
      exact .bind postEvent_takes fun _ => answer_takes ih
    · exact answer_takes ih

theorem settleDialog_takes (buttons : List Rect) (chosen : Int) : Tends Takes (settleDialog buttons chosen) := by
  refine .look (S := fun _ => Takes) (fun _ _ => rfl) (fun _ _ h => h) fun w => ?_
  refine .bind (awaitAnswer_takes _ _ _) fun n => ?_
  exact .bind (.draws (.refresh fun _ => False.elim)) fun _ => .pure n

theorem messageBox_takes (type default icon text caption : Value) :
    Tends Takes (messageBox type default icon text caption) := by
  refine .bind (.lift _) fun choice => ?_
  refine .bind (.draws (.newFont _ _ _ _)) fun f => ?_
  refine .bind (.lift _) fun mark => ?_
  refine .bind (.draws (.measurable fun _ => False.elim)) fun _ => ?_
  refine .bind (.draws (.measurable fun _ => False.elim)) fun _ => ?_
  refine .look (S := fun _ => Takes) (fun _ _ => rfl) (fun _ _ h => h) fun w => ?_
  refine .bind (.lift _) fun window => ?_
  refine .bind (.draws (.refresh fun _ => False.elim)) fun _ => ?_
  refine .bind (.draws (.drawDialog _ _ _ _ (fun _ => False.elim) fun _ => False.elim)) fun _ => ?_
  exact settleDialog_takes _ _

/-! ## The menu -/

theorem clickHeaders_browses {p : Pixel} {menu : Menu} {entries : List (Nat × Popup × Rect)}
    (hentries : ∀ x ∈ entries, x.1 < menu.length) : Tends (BrowsesWith menu) (clickHeaders p entries) := by
  induction entries with
  | nil => exact .pure _
  | cons x entries ih =>
    have hrest := ih fun x' hx' => hentries x' (List.mem_cons_of_mem _ hx')
    refine .bind (.lift _) fun hits => ?_
    dsimp only
    split
    · split
      · exact .pure _
      · refine .bind (.modify (fun w hmenu => ?_) fun _ _ => rfl) fun _ => hrest
        refine ⟨rfl, rfl, fun _ index hindex => ?_⟩
        obtain rfl := Option.some.inj hindex
        rw [← hmenu] at hentries
        exact hentries x List.mem_cons_self
    · exact hrest

theorem index_lt_of_header (menu : Menu) (rects : List Rect) :
    ∀ x ∈ (menu.zip rects).zipIdx.map fun (x, i) => (i, x), x.1 < menu.length := by
  intro x hx
  obtain ⟨⟨entry, i⟩, hentry, rfl⟩ := List.mem_map.mp hx
  have hi := (List.mem_zipIdx hentry).2.1
  rw [List.length_zip] at hi
  dsimp only
  omega

theorem barClick_browses (p : Pixel) (menu : Menu) : Tends (BrowsesWith menu) (barClick p menu) := by
  refine .bind (.draws (.headers fun _ => False.elim)) fun rects => ?_
  refine .bind (clickHeaders_browses (index_lt_of_header menu rects)) fun found => ?_
  cases found with
  | some e => exact .pure _
  | none => exact .bind (.draws (.refresh fun _ => False.elim)) fun _ => .pure none

theorem menuClick_browses (p : Pixel) : Tends Browses (menuClick p) := by
  refine .look (S := fun w => BrowsesWith w.panel.menu) (fun _ _ => rfl) (fun w s' h => h rfl) fun w => ?_
  split
  · rename_i index hindex
    refine .bind (.modify (fun w' _ => ?_) fun _ _ => rfl) fun _ => ?_
    · exact ⟨rfl, rfl, fun _ => nofun⟩
    · dsimp only
      split
      · exact .throw _
      · refine .bind (.draws (.popupRects fun _ => False.elim)) fun members => .bind (.lift _) fun found => ?_
        cases found with
        | none => exact barClick_browses p _
        | some item => exact .bind (.draws (.refresh fun _ => False.elim)) fun _ => .pure _
  · exact barClick_browses p _

/-! ## Waits -/

theorem eventOf_browses (e : DisplayEvent) : Tends Browses (eventOf e) := by
  refine .look (S := fun _ => Browses) (fun _ _ => rfl) (fun _ _ h => h) fun w => ?_
  have hrefresh : Tends Browses (do
      refresh
      return (none : Option Event)) := .bind (.draws (.refresh fun _ => False.elim)) fun _ => .pure none
  cases e with
  | quit => exact .pure _
  | other => exact .pure _
  | exposed => exact hrefresh
  | resize width height => exact .bind (.draws (.resize _)) fun _ => hrefresh
  | click p button =>
    dsimp only
    split
    · exact menuClick_browses p
    · exact .lift _
  | key code modifiers typed =>
    dsimp only
    split
    · refine .bind (.modify (fun w' => ?_) fun _ _ => rfl) fun _ => hrefresh
      exact ⟨rfl, rfl, fun _ => nofun⟩
    · exact .pure _

theorem eventOf_later (e : DisplayEvent) : Tends Later (eventOf e) := (eventOf_browses e).mono Browses.later

theorem hasFocus_later (w : Window) : w.situation.Later (w.mapDisplay fun _ => w.display.hasFocus.2).situation := by
  unfold Display.hasFocus
  split <;> exact ⟨rfl, rfl, rfl, id, fun _ => .inr⟩

theorem waitLimit_later : Tends Later waitLimit := by
  refine .look (S := fun w s s' => s = w.situation → s.Later s') (fun _ _ => rfl) (fun w s' h => h rfl) fun w => ?_
  have hstay : ∀ o : Option Int, Tends (fun s s' => s = w.situation → s.Later s') (pure o : Draw (Option Int)) :=
    fun o => (Tends.pure o).mono fun h _ => h
  refine .liftBind (fun s _ => Situation.IsPreorder.refl s) fun left => ?_
  cases left with
  | none => exact hstay _
  | some ms =>
    dsimp only
    split
    · exact tends_display (hasFocus_later w) _
    · exact hstay _

theorem round_later : Tends Later round := by
  refine .bind waitLimit_later fun limit => ?_
  cases limit with
  | none => exact .pure _
  | some ms => exact .bind (nextEvent_later ms) eventOf_later

theorem await_later (fuel : Nat) : Tends Later (await fuel) := by
  induction fuel with
  | zero => exact .pure _
  | succ fuel ih =>
    refine .bind round_later fun found => ?_
    cases found with
    | none => exact ih
    | some e => exact .pure _

theorem waitEvent_later : Tends Later waitEvent := by
  refine .bind (.draws (.refresh fun _ => False.elim)) fun _ => .bind (.modify (fun w => ?_) fun _ _ => rfl) fun _ => ?_
  · exact ⟨rfl, rfl, rfl, id, fun _ => .inr⟩
  · exact .look (S := fun _ => Later) (fun _ _ => rfl) (fun _ _ h => h) fun w => await_later _

/-! ## Requests -/

end Window

/-- Instructions that a window hands on to the plain host behind it. -/
def Instruction.plain : Instruction → Bool
  | .run _ | .setKeyboard | .setMenu | .setMouse | .setWaitMode _ | .wait _ => true
  | _ => false

/-- Instructions that only draw. -/
def Instruction.draws : Instruction → Bool
  | .messageBox .. | .coordinates _ => false
  | i => !i.plain

theorem Instruction.plain_of_binds {i : Instruction} (h : i.binds = true) : i.plain = true := by
  cases i <;> first | rfl | cases h

theorem Instruction.of_wait {c : Command} {args : List Value} {t : Value} (h : ofCall? c args = some (.wait t)) :
    c = .waitInput := by
  unfold ofCall? ofBare? at h
  generalize args.map Value.bare = vs at h
  split at h <;> first | rfl | cases h

namespace Window

open Situation

theorem carryOut_draws {i : Instruction} (h : i.draws = true) : Draws (fun _ => False) (carryOut i) := by
  have hnever : ∀ s : Situation, ¬ False := fun _ => id
  have harc := fun x1 y1 x2 y2 x3 y3 x4 y4 => Draws.arcOf hnever x1 y1 x2 y2 x3 y3 x4 y4
  have hpixels := fun v => Draws.pixels hnever v
  cases i with
  | beep => exact .bind (.beep hnever) fun _ => .pure _
  | clear => exact .glance (fun _ _ => rfl) fun _ => .bind (.emit rfl) fun _ => .pure _
  | arc => exact .bind (harc _ _ _ _ _ _ _ _) fun _ => .bind (.stroke hnever _) fun _ => .pure _
  | chord => exact .bind (harc _ _ _ _ _ _ _ _) fun _ => .bind (.shape hnever _) fun _ => .pure _
  | pie => exact .bind (harc _ _ _ _ _ _ _ _) fun _ => .bind (.shape hnever _) fun _ => .pure _
  | ellipse | rectangle =>
    refine .bind (hpixels _) fun _ => .bind (hpixels _) fun _ => .bind (hpixels _) fun _ => .bind (hpixels _) fun _ => ?_
    exact .bind (.shape hnever _) fun _ => .pure _
  | roundRectangle =>
    refine .bind (hpixels _) fun _ => .bind (hpixels _) fun _ => .bind (hpixels _) fun _ => .bind (hpixels _) fun _ => ?_
    refine .bind (hpixels _) fun _ => .bind (hpixels _) fun _ => .bind (.shape hnever _) fun _ => .pure _
  | line =>
    refine .bind (.pointAt hnever _ _) fun _ => .bind (.pointAt hnever _ _) fun _ => ?_
    exact .bind (.stroke hnever _) fun _ => .pure _
  | flood => exact .bind (.flood hnever _ _ _ _ _) fun _ => .pure _
  | bitmap => exact .bind (.bitmap hnever _ _ _) fun _ => .pure _
  | sizedBitmap => exact .bind (.sizedBitmap hnever _ _ _ _ _) fun _ => .pure _
  | number => exact .bind (.optional hnever _) fun _ => .bind (.drawText hnever _ _ _) fun _ => .pure _
  | text => exact .bind (.drawText hnever _ _ _) fun _ => .pure _
  | setWindow => exact .bind (.setWindow _) fun _ => .pure _
  | background => exact .bind (.useBackground hnever _ _ _ _) fun _ => .pure _
  | brush => exact .bind (.useBrush hnever _ _ _ _) fun _ => .pure _
  | pen => exact .bind (.usePen hnever _ _ _ _ _) fun _ => .pure _
  | font => exact .bind (.useFont hnever _ _ _ _ _ _ _ _ _) fun _ => .pure _
  | caption => exact .bind (.useCaption _) fun _ => .pure _
  | _ => cases h

theorem run_viaPanel (i : Instruction) (w : Window) :
    (viaPanel i).run.run w = ((w.panel.carryOut i).1, { w with panel := (w.panel.carryOut i).2 }) := by
  unfold viaPanel
  rw [run_get_bind]
  rcases hresult : w.panel.carryOut i with ⟨_ | _, panel⟩ <;> rfl

theorem carryOut_plain {i : Instruction} (h : i.plain = true) : carryOut i = viaPanel i := by
  cases i <;> first | rfl | cases h

/-- What a request can do to a situation. Only a wait sets the deadline, and only a new menu closes a popup. -/
structure Effect (f : Inputs → Inputs) (waits : Prop) (s s' : Situation) : Prop where
  inputs : s'.panel.inputs = f s.panel.inputs
  clock : s'.panel.world.clock = s.panel.world.clock
  deadline : ¬ waits → s'.panel.deadline = s.panel.deadline
  popup : s'.openPopup = s.openPopup ∨ s'.openPopup = none
  scale : s'.scale = s.scale ∨ ∃ system, s'.scale = Outline.programScale system
  awaits : ∀ e, s'.Awaits e → e = .quit ∨ s.Awaits e

theorem Effect.refl {waits : Prop} (s : Situation) : Effect id waits s s :=
  ⟨rfl, rfl, fun _ => rfl, .inl rfl, .inl rfl, fun _ => .inr⟩

theorem Effect.takes {waits : Prop} {s s' : Situation} (h : s.Takes s') : Effect id waits s s' := by
  obtain ⟨_, _, h⟩ := h
  exact ⟨rfl, rfl, fun _ => rfl, .inl rfl, .inl rfl, h⟩

theorem Instruction.carryOut_of_draws {i : Instruction} (h : i.draws = true) : (fun k : Inputs => k.carryOut i) = id := by
  cases i <;> first | rfl | cases h

theorem carryOut_effect (i : Instruction) (w : Window) :
    Effect (·.carryOut i) (∃ t, i = .wait t) w.situation ((carryOut i).run.run w).2.situation := by
  by_cases hdraws : i.draws = true
  · rw [(carryOut_draws hdraws).keeps, Instruction.carryOut_of_draws hdraws]
    exact .refl _
  · cases i with
    | messageBox type default icon text caption =>
      have hbox : Tends Takes (carryOut (.messageBox type default icon text caption)) :=
        .bind (messageBox_takes _ _ _ _ _) fun _ => .pure _
      exact .takes (hbox.tends w)
    | coordinates system => exact ⟨rfl, rfl, fun _ => rfl, .inl rfl, .inr ⟨system, rfl⟩, fun _ => .inr⟩
    | wait timeout =>
      obtain ⟨deadline, hdeadline⟩ := w.panel.carryOut_wait timeout
      rw [carryOut_plain rfl, run_viaPanel, hdeadline]
      exact ⟨rfl, rfl, fun hwaits => absurd ⟨timeout, rfl⟩ hwaits, .inl rfl, .inl rfl, fun _ => .inr⟩
    | run command =>
      rw [carryOut_plain rfl, run_viaPanel]
      cases command <;> exact ⟨rfl, rfl, fun _ => rfl, .inl rfl, .inl rfl, fun _ => .inr⟩
    | setKeyboard | setMenu | setMouse | setWaitMode _ =>
      rw [carryOut_plain rfl, run_viaPanel]
      exact ⟨rfl, rfl, fun _ => rfl, .inl rfl, .inl rfl, fun _ => .inr⟩
    | _ => exact absurd rfl hdraws

theorem isClosing_effect (w : Window) {waits : Prop} : Effect id waits w.situation w.isClosing.2.situation := by
  unfold isClosing Display.peekQuit
  dsimp only
  split <;> exact ⟨rfl, rfl, fun _ => rfl, .inl rfl, .inl rfl, fun _ => .inr⟩

theorem run_showMenu (menu : Menu) (w : Window) : ∃ w', (showMenu menu).run.run w = (.ok (), w') ∧
    w'.situation = ⟨(w.panel.showMenu menu).undrawn, none, w.scale⟩ := by
  have hfit : Draws (fun _ => True) fitFrame := .fitFrame
  change ∃ w', (if (w.panel.menu.isEmpty != menu.isEmpty) = true then fitFrame else pure ()).run.run
    { w with panel := w.panel.showMenu menu, openPopup := none } = (.ok (), w') ∧ _
  split
  · obtain ⟨_, hok⟩ := hfit.succeeds { w with panel := w.panel.showMenu menu, openPopup := none } trivial
    exact ⟨_, Prod.ext hok rfl, hfit.keeps _⟩
  · exact ⟨_, rfl, rfl⟩

theorem call_forward {c : Command} {args : List Value} {i : Instruction} (hi : Instruction.ofCall? c args = some i)
    (w : Window) : host.call (.forward c args) w =
      (((carryOut i).run.run w).1.mapError .failure, ((carryOut i).run.run w).2) := by
  simp only [host, call, forward, Panel.instructionOf_some hi]
  rfl

theorem call_effect (r : Request) (w : Window) :
    Effect (·.after r) (∃ args, r = .forward .waitInput args) w.situation (host.call r w).2.situation := by
  cases r with
  | checkEvents => exact isClosing_effect w
  | forward c args =>
    cases hi : Instruction.ofCall? c args with
    | none =>
      have heq : (fun k : Inputs => k.after (.forward c args)) = id := by
        funext k
        simp only [Inputs.after, hi, Option.elim_none, id]
      simp only [host, call, forward, Panel.instructionOf_none hi, heq]
      exact .refl _
    | some i =>
      have heq : (fun k : Inputs => k.after (.forward c args)) = (·.carryOut i) := by
        funext k
        simp only [Inputs.after, hi, Option.elim_some]
      have heffect := carryOut_effect i w
      rw [call_forward hi, heq]
      -- Of all instructions only `WaitInput` is turned into a wait.
      refine { heffect with deadline := fun hwaits => heffect.deadline ?_ }
      rintro ⟨t, rfl⟩
      exact hwaits ⟨args, by rw [Instruction.of_wait hi]⟩
  | showMenu menu =>
    obtain ⟨w', hrun, hw'⟩ := run_showMenu menu w
    simp only [host, call, hrun, hw']
    exact ⟨rfl, rfl, fun _ => rfl, .inr rfl, .inl rfl, fun _ => .inr⟩
  | _ => exact ⟨rfl, rfl, fun _ => rfl, .inl rfl, .inl rfl, fun _ => .inr⟩

theorem call_hears {r : Request} (hbinds : r.binds = true) (w : Window) : ∃ d, (host.call r w).1 = .ok d := by
  cases r with
  | checkEvents => cases hbinds
  | forward c args =>
    simp only [Request.binds] at hbinds
    cases hi : Instruction.ofCall? c args with
    | none => simp [hi] at hbinds
    | some i =>
      rw [hi] at hbinds
      rw [call_forward hi, carryOut_plain (Instruction.plain_of_binds hbinds), run_viaPanel, Panel.carryOut_hears hbinds]
      exact ⟨.none, rfl⟩
  | showMenu menu =>
    obtain ⟨w', hrun, -⟩ := run_showMenu menu w
    simp only [host, call, hrun]
    exact ⟨.none, rfl⟩
  | _ => exact ⟨.none, rfl⟩

theorem attends : host.Attends (·.panel.inputs) where
  note _ _ := rfl
  call w _ := (call_effect _ w).inputs
  hears w _ hbinds := call_hears hbinds w

/-! ## Answers -/

/-- All results of `act` have `P`. -/
def Gives {α : Type} (P : α → Prop) (act : Draw α) : Prop := ∀ w a, (act.run.run w).1 = .ok a → P a

namespace Gives

variable {α β : Type} {P : α → Prop}

theorem any {act : Draw α} : Gives (fun _ => True) act := fun _ _ _ => trivial

theorem mono {Q : α → Prop} {act : Draw α} (h : Gives P act) (hQ : ∀ a, P a → Q a) : Gives Q act :=
  fun w a ha => hQ a (h w a ha)

theorem pure {a : α} (h : P a) : Gives P (Pure.pure a : Draw α) := by
  rintro w _ ⟨⟩
  exact h

theorem lift {x : Except Failure α} (h : ∀ a, x = .ok a → P a) : Gives P (liftM x : Draw α) := fun _ a ha => h a ha

theorem throw (f : Failure) : Gives P (MonadExcept.throw f : Draw α) := by
  rintro w _ ⟨⟩

theorem bind {Q : β → Prop} {act : Draw α} {k : α → Draw β} (h : Gives P act) (hk : ∀ a, P a → Gives Q (k a)) :
    Gives Q (act >>= k) := by
  intro w b hb
  obtain ⟨a, ha, hb⟩ := ok_of_bind hb
  exact hk a (h w a ha) _ b hb

end Gives

theorem dialogAnswer_bounds {buttons : List Rect} {chosen n : Int} {e : DisplayEvent}
    (h : dialogAnswer buttons chosen e = .ok (some n)) : n = chosen ∨ 1 ≤ n ∧ n ≤ buttons.length := by
  cases e with
  | quit =>
    cases h
    exact .inl rfl
  | click p button =>
    simp only [dialogAnswer, clickedButton] at h
    split at h
    · split at h
      · obtain ⟨⟨r, i⟩, hi, rfl⟩ := Option.map_eq_some_iff.mp (Except.ok.inj h)
        have hmem := List.mem_of_mem_filter (List.mem_of_getLast? hi)
        have hlt := (List.mem_zipIdx hmem).2.1
        refine .inr ⟨?_, ?_⟩ <;> dsimp only <;> omega
      · cases h
    · cases h
  | key code modifiers typed =>
    simp only [dialogAnswer] at h
    split at h <;> cases h
    exact .inl rfl
  | _ => cases h

theorem answer_gives {P : Int → Prop} {x : Except Failure (Option Int)} {act : Draw Int}
    (hx : ∀ n, x = .ok (some n) → P n) (h : Gives P act) : Gives P (do
    match ← x with
    | some n => return n
    | none => act : Draw Int) := by
  refine .bind (.lift fun _ => id) fun answer hanswer => ?_
  cases answer with
  | none => exact h
  | some n => exact .pure (hx n hanswer)

theorem awaitAnswer_gives (buttons : List Rect) (chosen : Int) (fuel : Nat) :
    Gives (fun n => n = chosen ∨ 1 ≤ n ∧ n ≤ buttons.length) (awaitAnswer buttons chosen fuel) := by
  induction fuel with
  | zero => exact .pure (.inl rfl)
  | succ fuel ih =>
    refine .bind .any fun e _ => ?_
    dsimp only
    split
    · exact .bind .any fun _ _ => answer_gives (fun _ => dialogAnswer_bounds) ih
    · exact answer_gives (fun _ => dialogAnswer_bounds) ih

theorem messageBox_picks (type default icon text caption : Value) :
    Gives (fun n => ∃ labels chosen, messageBoxChoice type default = .ok (labels, chosen) ∧
      (n = chosen ∨ 1 ≤ n ∧ n ≤ labels.length)) (messageBox type default icon text caption) := by
  refine .bind (.lift fun _ => id) fun (labels, chosen) hchoice => .bind .any fun f _ => .bind .any fun mark _ => ?_
  refine .bind .any fun _ _ => .bind .any fun _ _ => .bind .any fun w _ => .bind .any fun window _ => ?_
  refine .bind .any fun _ _ => .bind .any fun _ _ => .bind .any fun w _ => ?_
  refine .bind (awaitAnswer_gives _ _ _) fun n hn => .bind .any fun _ _ => .pure ⟨labels, chosen, hchoice, ?_⟩
  rwa [length_buttons] at hn

theorem messageBox_gives (type default icon text caption : Value) :
    Gives Fits (messageBox type default icon text caption) := by
  intro w n hn
  obtain ⟨labels, chosen, hchoice, rfl | ⟨hpos, hle⟩⟩ := messageBox_picks type default icon text caption w n hn
  · exact messageBoxChoice_fits hchoice
  · have hthree := messageBoxChoice_length hchoice
    exact ⟨by unfold minInt; omega, by unfold maxInt; omega⟩

theorem viaPanel_gives (i : Instruction) : Gives Datum.IsButton (viaPanel i) := by
  intro w d hd
  rw [run_viaPanel] at hd
  exact Panel.carryOut_isButton hd

theorem carryOut_gives (i : Instruction) : Gives Datum.IsButton (carryOut i) := by
  have hnone : ∀ {act : Draw Unit}, Gives Datum.IsButton (do
      act
      return Datum.none) := .bind .any fun _ _ => .pure (.inl rfl)
  cases i with
  | messageBox => exact .bind (messageBox_gives _ _ _ _ _) fun n hn => .pure (.inr ⟨n, rfl, hn⟩)
  | run | setKeyboard | setMenu | setMouse | setWaitMode | wait =>
    rw [carryOut_plain rfl]
    exact viaPanel_gives _
  | clear | number => exact .bind .any fun _ _ => hnone
  | arc | chord | pie => exact .bind .any fun _ _ => hnone
  | line => exact .bind .any fun _ _ => .bind .any fun _ _ => hnone
  | ellipse | rectangle =>
    exact .bind .any fun _ _ => .bind .any fun _ _ => .bind .any fun _ _ => .bind .any fun _ _ => hnone
  | roundRectangle =>
    refine .bind .any fun _ _ => .bind .any fun _ _ => .bind .any fun _ _ => .bind .any fun _ _ => ?_
    exact .bind .any fun _ _ => .bind .any fun _ _ => hnone
  | _ => exact hnone

theorem answers : host.Answers Fits := by
  intro r w d n hd hn
  refine Datum.IsButton.fits ?_ hn
  cases r with
  | checkEvents =>
    simp only [host, call] at hd
    split at hd <;> cases hd
    exact .inl rfl
  | forward c args =>
    cases hi : Instruction.ofCall? c args with
    | none =>
      simp only [host, call, forward, Panel.instructionOf_none hi] at hd
      cases hd
    | some i =>
      rw [call_forward hi] at hd
      exact carryOut_gives i w d (Except.mapError_eq_ok.mp hd)
  | showMenu menu =>
    obtain ⟨w', hrun, -⟩ := run_showMenu menu w
    simp only [host, call, hrun] at hd
    cases hd
    exact .inl rfl
  | _ =>
    cases hd
    exact .inl rfl

/-! ## Events -/

/-- The events that a window makes of what happens at the display. -/
inductive Sends : Event → Prop where
  | quit : Sends { kind := .quit }
  | click (x y button : Int) : Sends { kind := .mouseClick, params := [.int x, .int y, .int button] }
  | key (code : Option Int) (char : Option String) (ctrl : Bool) :
      Sends { kind := .keyDown, params := [code.elim .none .int, char.elim .none .text, .flag ctrl] }
  | select (id : Nat) : Sends (select id)

theorem clickHeaders_selects (p : Pixel) (entries : List (Nat × Popup × Rect)) :
    Gives (fun o => ∀ e ∈ o, ∃ id, e = select id) (clickHeaders p entries) := by
  induction entries with
  | nil => exact .pure nofun
  | cons x entries ih =>
    refine .bind .any fun hits _ => ?_
    dsimp only
    split
    · split
      · refine .pure ?_
        rintro e ⟨⟩
        exact ⟨_, rfl⟩
      · exact .bind .any fun _ _ => ih
    · exact ih

theorem barClick_selects (p : Pixel) (menu : Menu) : Gives (fun o => ∀ e ∈ o, ∃ id, e = select id) (barClick p menu) := by
  refine .bind .any fun rects _ => .bind (clickHeaders_selects p _) fun found hfound => ?_
  cases found with
  | some e => exact .pure hfound
  | none => exact .bind .any fun _ _ => .pure (by simp)

theorem menuClick_selects (p : Pixel) : Gives (fun o => ∀ e ∈ o, ∃ id, e = select id) (menuClick p) := by
  refine .bind .any fun w _ => ?_
  split
  · refine .bind .any fun _ _ => ?_
    dsimp only
    split
    · exact .throw _
    · refine .bind .any fun members _ => .bind .any fun found _ => ?_
      cases found with
      | none => exact barClick_selects p _
      | some item =>
        refine .bind .any fun _ _ => .pure ?_
        rintro e ⟨⟩
        exact ⟨_, rfl⟩
  · exact barClick_selects p _

theorem eventOf_sends (e : DisplayEvent) : Gives (fun o => ∀ e ∈ o, Sends e) (eventOf e) := by
  refine .bind .any fun w _ => ?_
  cases e with
  | quit =>
    refine .pure ?_
    rintro e ⟨⟩
    exact .quit
  | click p button =>
    dsimp only
    split
    · refine (menuClick_selects p).mono ?_
      rintro o ho e he
      obtain ⟨id, rfl⟩ := ho e he
      exact .select id
    · refine .lift fun o ho e he => ?_
      have hclick := Except.mapError_eq_ok.mp ho
      unfold clickEvent at hclick
      dsimp only at hclick
      split at hclick
      · obtain ⟨x, -, hclick⟩ := Except.bind_eq_ok.mp hclick
        obtain ⟨y, -, hclick⟩ := Except.bind_eq_ok.mp hclick
        cases hclick
        cases he
        exact .click x y button
      · cases hclick
        cases he
  | key code modifiers typed =>
    dsimp only
    split
    · exact .bind .any fun _ _ => .bind .any fun _ _ => .pure nofun
    · refine .pure fun e he => ?_
      unfold keyEvent at he
      dsimp only at he
      split at he
      · cases he
      · cases he
        exact .key _ _ _
  | resize width height => exact .bind .any fun _ _ => .bind .any fun _ _ => .pure nofun
  | exposed => exact .bind .any fun _ _ => .pure nofun
  | other => exact .pure nofun

end Window

end GraphicsBatch
