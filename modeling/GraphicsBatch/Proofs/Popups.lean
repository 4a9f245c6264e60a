import GraphicsBatch.Proofs.Menus
import GraphicsBatch.Proofs.Moments
import GraphicsBatch.Proofs.Underway

/-!
# Menus and popups along a run

The menu at a window is the one that the program has set last. A popup that is open is one of that menu, and it has
members to choose from, whatever clicks, waits and new menus there were.
-/

namespace GraphicsBatch

/-! ## Menus that are set -/

/-- What a statement makes of the menu: it sets the menu that its arguments say, or keeps the one that is set. -/
inductive Action.Leaves (menu : Menu) : Action → Menu → Prop where
  | set {args : List Argument} {menu' : Menu} : menu'.flatMap Popup.values = args.map (·.value) → menu'.Numbered →
      Leaves menu (.call .setMenu args) menu'
  | keep {a : Action} : (∀ args, a ≠ .call .setMenu args) → Leaves menu a menu

/-- A menu that a statement of the program says. Until one has been set the menu is empty. -/
def Program.Offers (p : Program) (menu : Menu) : Prop :=
  menu = [] ∨ ∃ (i : Nat) (st : Statement) (args : List Argument), p.statements[i]? = some st ∧
    st.action = .call .setMenu args ∧ menu.flatMap Popup.values = args.map (·.value)

theorem Menu.resolve_args {args : List Argument} (hargs : (Command.signature .setMenu).Admits args) (s : State) :
    args.map s.resolve = args.map (·.value) := by
  apply List.map_congr_left
  intro a ha
  obtain ⟨slot, hslot, -, htakes⟩ := MenuArgs.exists_slot hargs ha
  apply State.resolve_eq_value
  intro x hx
  rw [hx] at htakes
  simp only [Signature.slots, List.mem_cons, List.not_mem_nil, or_false] at hslot
  rcases hslot with rfl | rfl | rfl | rfl <;> simp [Slot.Takes, Slot.str, Slot.menuLabel, Slot.token] at htakes

theorem Planned.leaves {p : Program} {maxStack : Int} {s : State} {a : Action} {pl : Plan}
    (h : Planned p maxStack s a pl) (hproper : a.Proper) : a.Leaves s.bindings.menu pl.prepared.bindings.menu := by
  cases h with
  | setMenu hmenu =>
    have hvalues := Menu.values_of_ofArgs hproper hmenu
    exact .set (hvalues.symm.trans (Menu.resolve_args hproper s)) (Menu.numbered_of_ofArgs hmenu)
  | forward hc =>
    refine .keep ?_
    rintro args ⟨⟩
    simp at hc
  | _ => exact .keep nofun

namespace Engine

variable {σ : Type} {g : Engine} {h : Host σ} {st : Statement} {m m' : Machine σ}

theorem CarriesOut.leaves (hc : g.CarriesOut h st m m') (hproper : st.action.Proper) :
    st.action.Leaves m.state.bindings.menu m'.state.bindings.menu := by
  obtain ⟨pl, reply, hplanned, hdone⟩ := hc.planned
  rw [hplanned.complete_bindings hdone]
  exact hplanned.leaves hproper

theorem preserves_offers (wf : g.program.WellFormed) (h : Host σ) :
    g.Preserves h fun m => g.program.Offers m.state.bindings.menu ∧ m.state.bindings.menu.Numbered where
  place _ hm := hm
  note _ hm := hm
  terminate hm := hm
  perform {m st} hrun hst hm := by
    have hleaves : ∀ menu, st.action.Leaves m.state.bindings.menu menu → g.program.Offers menu ∧ menu.Numbered := by
      intro menu hleaves
      generalize ha : st.action = a at hleaves
      cases hleaves with
      | set hvalues hnumbered => exact ⟨.inr ⟨_, st, _, hst, ha, hvalues⟩, hnumbered⟩
      | keep _ => exact hm
    refine perform_state (P := fun s => g.program.Offers s.bindings.menu ∧ s.bindings.menu.Numbered) hm fun pl hpl => ?_
    have hprepared := hleaves _ (hpl.leaves (wf.proper _ st hst))
    refine ⟨hprepared, fun reply s hs => ?_⟩
    rw [hpl.complete_bindings hs]
    exact hprepared
  react hreact hm := by
    rw [react_bindings hreact]
    exact hm

end Engine

/-! ## Popups that are open -/

namespace Window

namespace Situation

/-- The open popup is one of the menu, and it has members. -/
def Unfolded (s : Situation) : Prop :=
  ∀ index, s.openPopup = some index → ∃ popup, s.panel.menu[index]? = some popup ∧ popup.members ≠ []

/-- While a menu is shown it stays, and no popup is opened that has no members. -/
def Unfolds (menu : Menu) (s s' : Situation) : Prop :=
  s.panel.menu = menu → s'.panel.menu = menu ∧ (s.Unfolded → s'.Unfolded)

instance (menu : Menu) : IsPreorder (Unfolds menu) where
  refl _ hmenu := ⟨hmenu, id⟩
  trans h h' hmenu := ⟨(h' (h hmenu).1).1, (h' (h hmenu).1).2 ∘ (h hmenu).2⟩

variable {menu : Menu} {s s' : Situation}

theorem Takes.unfolds (h : s.Takes s') : s.Unfolds menu s' := by
  obtain ⟨_, _, -⟩ := h
  exact fun hmenu => ⟨hmenu, id⟩

theorem unfolded_of_closed (h : s.openPopup = none) : s.Unfolded := by
  intro index hindex
  cases h.symm.trans hindex

end Situation

open Situation (Unfolds)

variable {menu : Menu}

theorem clickHeaders_unfolds {p : Pixel} {entries : List (Nat × Popup × Rect)}
    (hentries : ∀ x ∈ entries, menu[x.1]? = some x.2.1) : Tends (Unfolds menu) (clickHeaders p entries) := by
  induction entries with
  | nil => exact .pure _
  | cons x entries ih =>
    have hrest := ih fun x' hx' => hentries x' (List.mem_cons_of_mem _ hx')
    refine .bind (.lift _) fun hits => ?_
    dsimp only
    split
    · split
      · exact .pure _
      · rename_i hmembers
        refine .bind (.modify (fun w hmenu => ⟨hmenu, fun _ index hindex => ?_⟩) fun _ _ => rfl) fun _ => hrest
        obtain rfl := Option.some.inj hindex
        refine ⟨x.2.1, ?_, by simpa using hmembers⟩
        rw [← hentries x List.mem_cons_self, ← hmenu]
        rfl
    · exact hrest

theorem mem_headers {menu : Menu} {rects : List Rect} {index : Nat} {popup : Popup} {r : Rect} :
    (index, popup, r) ∈ (menu.zip rects).zipIdx.map (fun (x, i) => (i, x)) ↔
      menu[index]? = some popup ∧ rects[index]? = some r := by
  rw [List.mem_map]
  constructor
  · rintro ⟨⟨⟨popup', r'⟩, i⟩, hx, ⟨⟩⟩
    rw [List.mk_mem_zipIdx_iff_getElem?] at hx
    exact List.getElem?_zip_eq_some.mp hx
  · intro h
    refine ⟨((popup, r), index), ?_, rfl⟩
    rw [List.mk_mem_zipIdx_iff_getElem?]
    exact List.getElem?_zip_eq_some.mpr h

theorem barClick_unfolds (p : Pixel) (menu : Menu) : Tends (Unfolds menu) (barClick p menu) := by
  refine .bind (.draws (.headers fun _ => False.elim)) fun rects => ?_
  refine .bind (clickHeaders_unfolds fun x hx => (mem_headers.mp hx).1) fun found => ?_
  cases found with
  | some e => exact .pure _
  | none => exact .bind (.draws (.refresh fun _ => False.elim)) fun _ => .pure none

theorem menuClick_unfolds (p : Pixel) : Tends (Unfolds menu) (menuClick p) := by
  refine .look (S := fun w => Unfolds w.panel.menu) (fun _ _ => rfl) ?_ fun w => ?_
  · rintro w s' h rfl
    exact h rfl
  · split
    · refine .bind (.modify (fun w' hmenu => ?_) fun _ _ => rfl) fun _ => ?_
      · exact ⟨hmenu, fun _ => Situation.unfolded_of_closed rfl⟩
      · dsimp only
        split
        · exact .throw _
        · refine .bind (.draws (.popupRects fun _ => False.elim)) fun members => .bind (.lift _) fun found => ?_
          cases found with
          | none => exact barClick_unfolds p _
          | some item => exact .bind (.draws (.refresh fun _ => False.elim)) fun _ => .pure _
    · exact barClick_unfolds p _

theorem eventOf_unfolds (e : DisplayEvent) : Tends (Unfolds menu) (eventOf e) := by
  refine .look (S := fun _ => Unfolds menu) (fun _ _ => rfl) (fun _ _ h => h) fun w => ?_
  have hrefresh : Tends (Unfolds menu) (do
      refresh
      return (none : Option Event)) := .bind (.draws (.refresh fun _ => False.elim)) fun _ => .pure none
  cases e with
  | quit => exact .pure _
  | other => exact .pure _
  | exposed => exact hrefresh
  | resize width height => exact .bind (.draws (.resize _)) fun _ => hrefresh
  | click p button =>
    dsimp only
    split
    · exact menuClick_unfolds p
    · exact .lift _
  | key code modifiers typed =>
    dsimp only
    split
    · refine .bind (.modify (fun w' hmenu => ?_) fun _ _ => rfl) fun _ => hrefresh
      exact ⟨hmenu, fun _ => Situation.unfolded_of_closed rfl⟩
    · exact .pure _

theorem nextEvent_unfolds (timeout : Int) : Tends (Unfolds menu) (nextEvent timeout) := by
  refine .bind (.draws (.emit rfl)) fun _ => ?_
  refine .look (S := fun w s s' => s = w.situation → s.Unfolds menu s') (fun _ _ => rfl) (fun w s' h => h rfl) fun w => ?_
  have htakes : w.situation.Unfolds menu (w.mapDisplay fun _ => w.display.takeEvent.2).situation :=
    (takeEvent_takes w).unfolds
  generalize w.display.takeEvent = x at htakes
  obtain ⟨_ | e, d⟩ := x
  · refine Tends.mono (R := Unfolds menu) ?_ fun h _ => h
    dsimp only
    split
    · exact .pure _
    · refine .bind (.lift _) fun ms => ?_
      exact .bind (.modify (fun w hmenu => ⟨hmenu, id⟩) fun _ _ => rfl) fun _ => .pure _
  · exact tends_display htakes e

theorem waitLimit_unfolds : Tends (Unfolds menu) waitLimit := by
  refine .look (S := fun w s s' => s = w.situation → s.Unfolds menu s') (fun _ _ => rfl) (fun w s' h => h rfl) fun w => ?_
  have hstay : ∀ o : Option Int, Tends (fun s s' => s = w.situation → s.Unfolds menu s') (pure o : Draw (Option Int)) :=
    fun o => (Tends.pure o).mono fun h _ => h
  have hfocus : w.situation.Unfolds menu (w.mapDisplay fun _ => w.display.hasFocus.2).situation := by
    unfold Display.hasFocus
    split <;> exact fun hmenu => ⟨hmenu, id⟩
  refine .liftBind (fun s _ => Situation.IsPreorder.refl s) fun left => ?_
  cases left with
  | none => exact hstay _
  | some ms =>
    dsimp only
    split
    · exact tends_display hfocus _
    · exact hstay _

theorem round_unfolds : Tends (Unfolds menu) round := by
  refine .bind waitLimit_unfolds fun limit => ?_
  cases limit with
  | none => exact .pure _
  | some ms => exact .bind (nextEvent_unfolds ms) eventOf_unfolds

theorem round_unfolded {w w' : Window} {o : Option Event} (h : round.run.run w = (.ok o, w'))
    (hw : w.situation.Unfolded) : w'.situation.Unfolded := by
  have hround : w.situation.Unfolds w.situation.panel.menu (round.run.run w).2.situation := round_unfolds.tends w
  rw [h] at hround
  exact (hround rfl).2 hw

theorem call_showMenu_popup (menu : Menu) (w : Window) :
    (host.call (.showMenu menu) w).2.situation.openPopup = none := by
  obtain ⟨w', hrun, hw'⟩ := run_showMenu menu w
  simp only [host, call, hrun, hw']

theorem call_unfolded {r : Request} (hr : r.Tame) {w : Window} (hw : w.situation.Unfolded) :
    (host.call r w).2.situation.Unfolded := by
  have heffect := call_effect r w
  have hkeeps : (host.call r w).2.situation.panel.menu = w.situation.panel.menu →
      (host.call r w).2.situation.Unfolded := by
    intro hmenu index hindex
    rcases heffect.popup with hsame | hnone
    · exact hmenu ▸ hw index (hsame ▸ hindex)
    · cases hnone.symm.trans hindex
  have hmenu := congrArg Inputs.menu heffect.inputs
  cases r with
  | showMenu menu => exact Situation.unfolded_of_closed (call_showMenu_popup menu w)
  | forward c args => exact hkeeps (hmenu.trans (Inputs.menu_after_forward hr.1 args _))
  | checkEvents | bindMouse _ _ | bindKey _ _ => exact hkeeps hmenu

end Window

/-- A new menu closes the popup that was open, and no other statement opens one. -/
theorem Planned.unfolded {p : Program} {maxStack : Int} {s : State} {a : Action} {pl : Plan}
    (h : Planned p maxStack s a pl) (hproper : a.Proper) (hs : s.Every Fits) {w : Window} (hw : w.situation.Unfolded) :
    (Window.host.askAll pl.requests w).2.situation.Unfolded := by
  by_cases hmenu : ∃ args, a = .call .setMenu args
  · obtain ⟨args, rfl⟩ := hmenu
    cases h with
    | @setMenu _ menu hmenu =>
      obtain ⟨d, hforget⟩ := Window.call_hears (r := .forward .setMenu (args.map s.resolve)) rfl w
      rw [Plan.asking, Host.askAll_cons_snd (Host.ask_eq_ok.mpr (Prod.ext hforget rfl)), Host.askAll_singleton_snd]
      exact Window.Situation.unfolded_of_closed (Window.call_showMenu_popup menu _)
    | forward hc => simp at hc
  · have htame := h.tame hproper hs fun args ha => hmenu ⟨args, ha⟩
    refine Host.askAll_keeps (P := fun w : Window => w.situation.Unfolded) ?_ hw
    exact fun r hr w => Window.call_unfolded (htame r hr)

/-! ## Runs -/

namespace Engine

variable {g : Engine} {m : Machine Window}

theorem carries_unfolded (wf : g.program.WellFormed) : g.Carries Window.host fun m =>
    m.state.Every Fits ∧ m.world.situation.Unfolded where
  place _ hm := ⟨⟨hm.1.vars, hm.1.mouse⟩, hm.2⟩
  note _ hm := hm
  terminate hm := ⟨⟨hm.1.vars, hm.1.mouse⟩, hm.2⟩
  perform {m st} hrun hst hm := by
    refine ⟨(carries_every id wf Window.answers).perform hrun hst hm.1, ?_⟩
    refine perform_keeps (h := Window.host) (P := fun w => w.situation.Unfolded) ?_ ?_ hm.2
    · exact fun w hw => Window.call_unfolded (r := .checkEvents) trivial hw
    · exact fun pl w hpl hw => hpl.unfolded (wf.proper _ st hst) hm.1 hw

theorem resume_zero_situation (e : Event) : (g.resume Window.host 0 e m).1.world.situation = m.world.situation := by
  have hresumed := resumed g Window.host 0 e m
  generalize g.resume Window.host 0 e m = r at hresumed
  cases hresumed <;> rfl

end Engine

/-- A run at a window whose menu is one that the program sets, and known to both sides. -/
structure Machine.Browsing (g : Engine) (m : Machine Window) : Prop where
  attended : m.Attended (·.panel.inputs)
  offers : g.program.Offers m.state.bindings.menu
  numbered : m.state.bindings.menu.Numbered
  unfolded : m.world.situation.Unfolded

theorem Machine.Attended.later {m : Machine Window} (hm : m.Attended (·.panel.inputs)) {w : Window}
    (h : m.world.situation.Later w.situation) : (⟨m.state, w⟩ : Machine Window).Attended (·.panel.inputs) := by
  have hinputs : w.panel.inputs = m.world.panel.inputs := h.inputs
  exact ⟨hinputs.trans hm.inputs, hm.near⟩

theorem Underway.browsing {g : Engine} {m : Machine Window} (wf : g.program.WellFormed) (h : Underway g m) :
    m.Browsing g := by
  have hattended := Engine.preserves_attended (g := g) wf Window.attends (Window.answers.mono .of_fits)
  have hoffers := Engine.preserves_offers wf Window.host
  induction h with
  | start hopen _ hvars =>
    have hsituation := Window.open_situation hopen
    refine ⟨⟨congrArg (·.panel.inputs) hsituation, ⟨fun e he => .of_fits (hvars e he), nofun⟩⟩, .inl rfl, nofun, ?_⟩
    exact hsituation ▸ Window.Situation.unfolded_of_closed rfl
  | arrive _ _ _ _ ih | pass _ _ ih =>
    exact ⟨⟨ih.attended.inputs, ih.attended.near⟩, ih.offers, ih.numbered, ih.unfolded⟩
  | step hm _ hstep ih =>
    have hnext := hattended.step ih.attended
    have hmenu := hoffers.step ⟨ih.offers, ih.numbered⟩
    have hpopup := (Engine.carries_unfolded wf).step ⟨(hm.orderly wf).every, ih.unfolded⟩
    rw [hstep] at hnext hmenu hpopup
    exact ⟨hnext, hmenu.1, hmenu.2, hpopup.2⟩
  | @look m w _ _ hrefresh ih =>
    have hkeeps := (Window.Draws.refresh fun _ => False.elim : Window.Draws (fun _ => False) Window.refresh).keeps m.world
    rw [hrefresh] at hkeeps
    have hunfolded : w.situation.Unfolded := hkeeps ▸ ih.unfolded
    exact ⟨ih.attended.later (hkeeps ▸ ⟨rfl, rfl, rfl, id, fun _ => .inr⟩), ih.offers, ih.numbered, hunfolded⟩
  | @idle m w _ _ hround ih =>
    have hlater := Window.round_later.tends m.world
    rw [hround] at hlater
    exact ⟨ih.attended.later hlater, ih.offers, ih.numbered, Window.round_unfolded hround ih.unfolded⟩
  | @deliver m m' e w _ _ hround hresume ih =>
    have hlater := Window.round_later.tends m.world
    rw [hround] at hlater
    have hunfolded : w.situation.Unfolded := Window.round_unfolded hround ih.unfolded
    have hnext := hattended.resume 0 e (ih.attended.later (w := Window.host.note (Frontend.eventNote e) w) hlater)
    have hmenu := hoffers.resume (m := ⟨m.state, Window.host.note (Frontend.eventNote e) w⟩) 0 e ⟨ih.offers, ih.numbered⟩
    -- The round may open or close the popup; without steps the engine does not touch the window.
    have hsame := Engine.resume_zero_situation (g := g) (m := ⟨m.state, Window.host.note (Frontend.eventNote e) w⟩) e
    rw [hresume] at hnext hmenu hsame
    exact ⟨hnext, hmenu.1, hmenu.2, hsame ▸ hunfolded⟩

end GraphicsBatch
