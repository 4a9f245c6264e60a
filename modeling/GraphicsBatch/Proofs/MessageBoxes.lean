import GraphicsBatch.Proofs.Arithmetic
import GraphicsBatch.Proofs.Closing

/-!
# Message boxes

A message box at a window passes over events until one settles it: the window is closed, a button is clicked on, or a key
is pressed that dismisses the box. No two buttons have a place in common, so that a click is on one of them at most. All
hosts agree that the answer is the number of one of the buttons.
-/

namespace GraphicsBatch

/-! ## Choices -/

theorem defaultButton_bounds {count : Nat} (h : 0 < count) (default : Int) :
    1 ≤ defaultButton count default ∧ defaultButton count default ≤ count := by
  unfold defaultButton
  split
  · assumption
  · omega

section

variable {type icon mark : String} {labels : List String}

theorem length_labels_pos (h : (type, labels) ∈ messageBoxButtons) : 0 < labels.length :=
  (by decide : ∀ e ∈ messageBoxButtons, 0 < e.2.length) _ h

theorem messageBoxChoice_eq (h : (type, labels) ∈ messageBoxButtons) (default : Int) :
    messageBoxChoice (.text type) (.int default) = .ok (labels, defaultButton labels.length default) := by
  have hlookup : messageBoxButtons.lookup type = some labels :=
    (by decide : ∀ e ∈ messageBoxButtons, messageBoxButtons.lookup e.1 = some e.2) _ h
  simp only [messageBoxChoice, optionOf, hlookup]
  rfl

theorem optionOf_iconMarks (h : (icon, mark) ∈ Window.iconMarks) : optionOf Window.iconMarks (.text icon) = .ok mark := by
  have hlookup : Window.iconMarks.lookup icon = some mark :=
    (by decide : ∀ e ∈ Window.iconMarks, Window.iconMarks.lookup e.1 = some e.2) _ h
  simp only [optionOf, hlookup]

end

namespace Window

/-! ## Events that settle a message box -/

/-- The event settles a message box with the answer `n`, the button that was clicked or the one that counts otherwise. -/
inductive Settles (buttons : List Rect) (chosen : Int) : DisplayEvent → Int → Prop where
  | quit : Settles buttons chosen .quit chosen
  | click {p : Pixel} {i : Nat} {r : Rect} : buttons[i]? = some r → r.Holds p →
      Settles buttons chosen (.click p 1) (i + 1)
  | key {code modifiers : Int} {typed : String} : code ∈ dismissKeys →
      Settles buttons chosen (.key code modifiers typed) chosen

section

variable {buttons : List Rect} {chosen n : Int} {e : DisplayEvent}

theorem mem_of_buttonAt {p : Pixel} (h : buttonAt buttons p = some n) :
    ∃ (i : Nat) (r : Rect), buttons[i]? = some r ∧ r.contains p = true ∧ n = (i : Int) + 1 := by
  obtain ⟨⟨r, i⟩, hlast, rfl⟩ := Option.map_eq_some_iff.mp h
  obtain ⟨hmem, hcontains⟩ := List.mem_filter.mp (List.mem_of_getLast? hlast)
  exact ⟨i, r, List.mem_zipIdx_iff_getElem?.mp hmem, hcontains, rfl⟩

theorem buttonAt_eq (hapart : buttons.Pairwise Rect.Apart) {p : Pixel} {i : Nat} {r : Rect} (hi : buttons[i]? = some r)
    (hr : r.contains p = true) : buttonAt buttons p = some ((i : Int) + 1) := by
  have hmem : (r, i) ∈ buttons.zipIdx.filter fun x => x.1.contains p :=
    List.mem_filter.mpr ⟨List.mem_zipIdx_iff_getElem?.mpr hi, hr⟩
  have hsome : (buttonAt buttons p).isSome = true := by
    unfold buttonAt
    rw [Option.isSome_map, List.getLast?_isSome]
    exact List.ne_nil_of_mem hmem
  obtain ⟨k, hk⟩ := Option.isSome_iff_exists.mp hsome
  obtain ⟨j, s, hj, hs, rfl⟩ := mem_of_buttonAt hk
  rw [hk, Rect.eq_of_contains hapart hi hj hr hs]

theorem Settles.dialogAnswer_eq (hapart : buttons.Pairwise Rect.Apart) (h : Settles buttons chosen e n) :
    dialogAnswer buttons chosen e = .ok (some n) := by
  cases h with
  | quit => rfl
  | click hi hr =>
    obtain ⟨q, hq, hr⟩ := hr
    simp only [dialogAnswer, clickedButton, hq, if_true, buttonAt_eq hapart hi hr]
  | key hcode =>
    have hcontains := List.contains_iff_mem.mpr hcode
    simp only [dialogAnswer, hcontains, if_true]

theorem settles_of_dialogAnswer (h : dialogAnswer buttons chosen e = .ok (some n)) : Settles buttons chosen e n := by
  cases e with
  | quit =>
    cases h
    exact .quit
  | click p button =>
    simp only [dialogAnswer, clickedButton] at h
    split at h
    · rename_i hleft
      subst hleft
      split at h
      · rename_i q hq
        obtain ⟨i, r, hi, hr, rfl⟩ := mem_of_buttonAt (Except.ok.inj h)
        exact .click hi ⟨q, hq, hr⟩
      · cases h
    · cases h
  | key code modifiers typed =>
    simp only [dialogAnswer] at h
    split at h
    · rename_i hcode
      cases h
      exact .key (List.contains_iff_mem.mp hcode)
    · cases h
  | _ => cases h

theorem Settles.unique (hapart : buttons.Pairwise Rect.Apart) {k : Int} (h : Settles buttons chosen e n)
    (h' : Settles buttons chosen e k) : k = n := by
  have heq := (h'.dialogAnswer_eq hapart).symm.trans (h.dialogAnswer_eq hapart)
  exact Option.some.inj (Except.ok.inj heq)

theorem dialogAnswer_none (he : e.Plausible) (h : ∀ k, ¬ Settles buttons chosen e k) :
    dialogAnswer buttons chosen e = .ok none := by
  obtain ⟨o, ho⟩ := dialogAnswer_ok buttons chosen he
  cases o with
  | none => exact ho
  | some k => exact absurd (settles_of_dialogAnswer ho) (h k)

end

/-! ## The queue -/

namespace Situation

/-- The events that are still to be taken, one after another. -/
def queue (s : Situation) : List DisplayEvent := s.posted ++ s.panel.world.display.events

/-- The first `k` events have been taken, and some were put back. -/
def taken (k : Nat) (back : List DisplayEvent) (s : Situation) : Situation :=
  s.withQueue (s.posted.drop k ++ back) (s.panel.world.display.events.drop (k - s.posted.length))

theorem taken_of_empty {s : Situation} (h : s.queue = []) (k : Nat) : s.taken k [] = s := by
  obtain ⟨hposted, hevents⟩ := List.append_eq_nil_iff.mp h
  have hself : s.withQueue s.posted s.panel.world.display.events = s := rfl
  rw [taken, hposted, hevents, List.drop_nil, List.drop_nil]
  rwa [hposted, hevents] at hself

theorem queue_taken (k : Nat) (s : Situation) : (s.taken k []).queue = s.queue.drop k := by
  change (s.posted.drop k ++ []) ++ s.panel.world.display.events.drop (k - s.posted.length) = _
  rw [List.append_nil, queue, List.drop_append]

theorem taken_taken (j k : Nat) (back : List DisplayEvent) (s : Situation) :
    (s.taken j []).taken k back = s.taken (j + k) back := by
  change s.withQueue ((s.posted.drop j ++ []).drop k ++ back)
    ((s.panel.world.display.events.drop (j - s.posted.length)).drop (k - (s.posted.drop j ++ []).length)) = _
  have hcount : j - s.posted.length + (k - (s.posted.length - j)) = j + k - s.posted.length := by omega
  rw [List.append_nil, List.drop_drop, List.drop_drop, List.length_drop, hcount]
  rfl

end Situation

theorem takeEvent_eq {d : Display} {e : DisplayEvent} {rest : List DisplayEvent} (h : d.posted ++ d.events = e :: rest) :
    d.takeEvent = (some e, { d with posted := d.posted.drop 1, events := d.events.drop (1 - d.posted.length) }) := by
  cases hposted : d.posted with
  | cons b posted =>
    have hnone : 1 - (posted.length + 1) = 0 := by omega
    rw [hposted] at h
    cases h
    simp only [Display.takeEvent, hposted, List.length_cons, hnone, List.drop_zero, List.drop_succ_cons]
  | nil =>
    rw [hposted] at h
    have hevents : d.events = e :: rest := h
    simp only [Display.takeEvent, hposted, hevents, List.length_nil, List.drop_nil, List.drop_succ_cons, List.drop_zero]

theorem nextEvent_taken {w : Window} {e : DisplayEvent} {rest : List DisplayEvent}
    (h : w.situation.queue ++ [.quit] = e :: rest) :
    ∃ w', (nextEvent 0).run.run w = (.ok e, w') ∧ w'.situation = w.situation.taken 1 [] := by
  generalize hw₁ : w.mapDisplay (·.push (.wait 0)) = w₁
  have hsame : w₁.situation = w.situation := hw₁ ▸ rfl
  have hemit : (emit (.wait 0)).run.run w = (.ok (), w₁) := hw₁ ▸ rfl
  rw [← hsame] at h ⊢
  unfold nextEvent
  rw [run_bind, hemit]
  dsimp only
  rw [run_get_bind]
  cases hqueue : w₁.situation.queue with
  | nil =>
    -- With nothing in the queue, the wait finds the window closed.
    have htake : w₁.display.takeEvent = (none, w₁.display) := by
      obtain ⟨hposted, hevents⟩ : w₁.display.posted = [] ∧ w₁.display.events = [] := List.append_eq_nil_iff.mp hqueue
      simp only [Display.takeEvent, hposted, hevents]
    rw [hqueue] at h
    cases h
    rw [htake, Situation.taken_of_empty hqueue]
    exact ⟨w₁, rfl, rfl⟩
  | cons b queue =>
    rw [hqueue] at h
    cases h
    have htake := takeEvent_eq (d := w₁.display) hqueue
    rw [htake]
    refine ⟨_, rfl, ?_⟩
    rw [Situation.taken, List.append_nil]
    rfl

/-! ## The answer -/

theorem awaitAnswer_first {buttons : List Rect} {chosen n : Int} (hapart : buttons.Pairwise Rect.Apart)
    {before after : List DisplayEvent} {e : DisplayEvent} {fuel : Nat} {w : Window}
    (hqueue : w.situation.queue ++ [.quit] = before ++ e :: after) (hlikely : ∀ b ∈ before, b.Plausible)
    (hbefore : ∀ b ∈ before, ∀ k, ¬ Settles buttons chosen b k) (he : Settles buttons chosen e n)
    (hfuel : before.length < fuel) :
    ∃ w', (awaitAnswer buttons chosen fuel).run.run w = (.ok n, w') ∧
      w'.situation = w.situation.taken (before.length + 1) (if e = .quit then [.quit] else []) := by
  induction before generalizing w fuel with
  | nil =>
    obtain ⟨fuel, rfl⟩ : ∃ f, fuel = f + 1 := Nat.exists_eq_add_one.mpr hfuel
    obtain ⟨w₁, hnext, hw₁⟩ := nextEvent_taken hqueue
    rw [awaitAnswer, run_bind, hnext]
    dsimp only
    by_cases hquit : e = .quit
    · subst hquit
      cases he
      refine ⟨_, rfl, ?_⟩
      change w₁.situation.withQueue (w₁.situation.posted ++ [.quit]) w₁.situation.panel.world.display.events = _
      rw [hw₁, Situation.taken, List.append_nil, if_pos rfl]
      rfl
    · rw [if_neg hquit, if_neg hquit, he.dialogAnswer_eq hapart]
      exact ⟨w₁, rfl, hw₁⟩
  | cons b before ih =>
    obtain ⟨fuel, rfl⟩ : ∃ f, fuel = f + 1 := Nat.exists_eq_add_one.mpr (Nat.zero_lt_of_lt hfuel)
    obtain ⟨w₁, hnext, hw₁⟩ := nextEvent_taken hqueue
    have hnone := dialogAnswer_none (hlikely b List.mem_cons_self) (hbefore b List.mem_cons_self)
    have hquit : b ≠ .quit := by
      rintro rfl
      exact hbefore _ List.mem_cons_self chosen .quit
    -- Closing the window settles the box, so that this event comes from the queue.
    have hqueue₁ : w₁.situation.queue ++ [.quit] = before ++ e :: after := by
      rw [hw₁, Situation.queue_taken]
      cases hw : w.situation.queue with
      | nil =>
        rw [hw] at hqueue
        exact absurd (List.cons.inj hqueue).1.symm hquit
      | cons c queue =>
        rw [hw] at hqueue
        exact (List.cons.inj hqueue).2
    obtain ⟨w', hrun, hw'⟩ := ih hqueue₁ (fun c hc => hlikely c (List.mem_cons_of_mem _ hc))
      (fun c hc => hbefore c (List.mem_cons_of_mem _ hc)) (Nat.lt_of_succ_lt_succ hfuel)
    refine ⟨w', ?_, ?_⟩
    · rw [awaitAnswer, run_bind, hnext]
      dsimp only
      rw [if_neg hquit, hnone]
      exact hrun
    · rw [hw', hw₁, Situation.taken_taken, List.length_cons, Nat.add_comm 1]

theorem settleDialog_first {buttons : List Rect} {chosen n : Int} (hapart : buttons.Pairwise Rect.Apart)
    {before after : List DisplayEvent} {e : DisplayEvent} {w : Window} (hw : w.situation.Presentable)
    (hqueue : w.situation.queue ++ [.quit] = before ++ e :: after) (hlikely : ∀ b ∈ before, b.Plausible)
    (hbefore : ∀ b ∈ before, ∀ k, ¬ Settles buttons chosen b k) (he : Settles buttons chosen e n) :
    ∃ w', (settleDialog buttons chosen).run.run w = (.ok n, w') ∧
      w'.situation = w.situation.taken (before.length + 1) (if e = .quit then [.quit] else []) := by
  have hfuel : before.length < w.display.pending + 1 := by
    have hpending : w.situation.queue.length = w.display.pending := List.length_append
    have hlength := congrArg List.length hqueue
    rw [List.length_append, List.length_append, hpending, List.length_cons, List.length_cons, List.length_nil] at hlength
    omega
  obtain ⟨w₁, hanswer, hw₁⟩ := awaitAnswer_first hapart hqueue hlikely hbefore he hfuel
  obtain ⟨w₂, hrefresh, hw₂⟩ := refresh_ok (w := w₁) (hw₁ ▸ ⟨hw.names, hw.popup⟩)
  refine ⟨w₂, ?_, hw₂.trans hw₁⟩
  unfold settleDialog
  rw [run_get_bind, run_bind, hanswer]
  dsimp only
  rw [run_bind, hrefresh]
  rfl

/-- The font that is made for a message box. -/
def boxFont (w : Window) : Font :=
  w.display.metrics.font (w.display.fonts + 1) ⟨.nothing, dialogTextHeight, false, false⟩

/-- The buttons of a message box as they are laid out on the screen. -/
def boxButtons (w : Window) (window : Rect) (mark text caption : String) (labels : List String) : List Rect :=
  (dialogLayout window w.boxFont (messageOf mark (.text text)) (.text caption) labels.length).buttons

theorem measurable_messageOf (mark text : String) : (messageOf mark (.text text)).length?.isSome = true := by
  unfold messageOf
  split <;> rfl

/-- A message box is settled by the first event that can do it. -/
theorem messageBox_first {type icon mark : String} {labels : List String} (htype : (type, labels) ∈ messageBoxButtons)
    (hicon : (icon, mark) ∈ iconMarks) {default n : Int} {text caption : String} {w : Window}
    (hw : w.situation.Presentable) {window : Rect} (hframe : w.frameRect = .ok window)
    {before after : List DisplayEvent} {e : DisplayEvent}
    (hqueue : w.situation.queue ++ [.quit] = before ++ e :: after) (hlikely : ∀ b ∈ before, b.Plausible)
    (hbefore : ∀ b ∈ before, ∀ k, ¬ Settles (w.boxButtons window mark text caption labels)
      (defaultButton labels.length default) b k)
    (he : Settles (w.boxButtons window mark text caption labels) (defaultButton labels.length default) e n) :
    ∃ w', (messageBox (.text type) (.int default) (.text icon) (.text text) (.text caption)).run.run w = (.ok n, w') ∧
      w'.situation = w.situation.taken (before.length + 1) (if e = .quit then [.quit] else []) := by
  have hmessage := measurable_messageOf mark text
  unfold boxButtons at hbefore he
  obtain ⟨message, hmark⟩ : ∃ message, messageOf mark (.text text) = message := ⟨_, rfl⟩
  rw [hmark] at hmessage hbefore he
  obtain ⟨w₁, hfont, hw₁, hframe₁⟩ : ∃ w₁, (newFont .nothing dialogTextHeight false false).run.run w = (.ok w.boxFont, w₁) ∧
      w₁.situation = w.situation ∧ w₁.frameRect = w.frameRect := ⟨_, rfl, rfl, rfl⟩
  obtain ⟨w₂, hrefresh, hw₂⟩ := refresh_ok (w := w₁) (hw₁ ▸ hw)
  have hdraws : Draws (fun _ => True) _ := .drawDialog w.boxFont
    (dialogLayout window w.boxFont message (.text caption) labels.length) labels (defaultButton labels.length default)
    (fun _ _ => hmessage) (fun _ _ => (rfl : (Value.text caption).length?.isSome = true))
  obtain ⟨_, w₃, hdraw, hw₃⟩ := hdraws.ok (w := w₂) trivial
  -- Neither the font nor the drawing takes an event.
  have hsame : w₃.situation = w.situation := hw₃.trans (hw₂.trans hw₁)
  obtain ⟨w', hsettle, hw'⟩ := settleDialog_first (w := w₃) (buttons_apart window w.boxFont message (.text caption) _)
    (hsame ▸ hw) (hsame ▸ hqueue) hlikely hbefore he
  refine ⟨w', ?_, hsame ▸ hw'⟩
  unfold messageBox
  rw [messageBoxChoice_eq htype, optionOf_iconMarks hicon]
  rw [run_lift_bind]
  dsimp only
  rw [run_bind, hfont]
  dsimp only
  rw [run_lift_bind, hmark, run_bind, run_measurable hmessage]
  dsimp only
  rw [run_bind, run_measurable rfl]
  dsimp only
  rw [run_get_bind, hframe₁, hframe, run_lift_bind, run_bind, hrefresh]
  dsimp only
  rw [run_bind, hdraw]
  exact hsettle

theorem exists_first_settles {buttons : List Rect} {chosen : Int} {queue : List DisplayEvent}
    (h : ∃ e ∈ queue, ∃ n, Settles buttons chosen e n) :
    ∃ before e after n, queue = before ++ e :: after ∧ (∀ b ∈ before, ∀ k, ¬ Settles buttons chosen b k) ∧
      Settles buttons chosen e n := by
  induction queue with
  | nil => simp at h
  | cons b queue ih =>
    by_cases hb : ∃ n, Settles buttons chosen b n
    · obtain ⟨n, hn⟩ := hb
      exact ⟨[], b, queue, n, rfl, by simp, hn⟩
    · obtain ⟨e, he, hsettles⟩ := h
      have hlater : e ∈ queue := (List.mem_cons.mp he).resolve_left fun heq => hb (heq ▸ hsettles)
      obtain ⟨before, e', after, n, rfl, hbefore, he'⟩ := ih ⟨e, hlater, hsettles⟩
      refine ⟨b :: before, e', after, n, rfl, ?_, he'⟩
      intro c hc k hk
      rcases List.mem_cons.mp hc with rfl | hc
      · exact hb ⟨k, hk⟩
      · exact hbefore c hc k hk

end Window

/-! ## Hosts -/

section

variable {σ : Type}

/-- A host that answers message boxes with the numbers of their buttons. -/
def Host.Picks (h : Host σ) : Prop :=
  ∀ {type : String} {labels : List String} {default : Int} {icon text caption : Value} {w : σ} {d : Datum},
    (type, labels) ∈ messageBoxButtons →
    (h.call (.forward .messageBox [.token type, .int default, icon, text, caption]) w).1 = .ok d →
    ∃ n : Int, d = .int n ∧ 1 ≤ n ∧ n ≤ labels.length

end

section

variable {type : String} {labels : List String} (htype : (type, labels) ∈ messageBoxButtons) (default : Int)
  (icon text caption : Value)

include htype

theorem Panel.call_messageBox (p : Panel) :
    (host.call (.forward .messageBox [.token type, .int default, icon, text, caption]) p).1 =
      .ok (.int (defaultButton labels.length default)) := by
  have hi : Instruction.ofCall? .messageBox [.token type, .int default, icon, text, caption] =
    some (.messageBox (.text type) (.int default) icon.bare text.bare caption.bare) := rfl
  simp only [host, call, forward, instructionOf_some hi, carryOut, messageBoxChoice_eq htype]
  rfl

theorem Headless.call_messageBox {texts : List String}
    (htexts : Value.allWritten [.token type, .int default, icon, text, caption] = .ok texts) (h : Headless) :
    (host.call (.forward .messageBox [.token type, .int default, icon, text, caption]) h).1 =
      .ok (.int (defaultButton labels.length default)) := by
  have hi : Instruction.ofCall? .messageBox [.token type, .int default, icon, text, caption] =
    some (.messageBox (.text type) (.int default) icon.bare text.bare caption.bare) := rfl
  simp only [host, call_forward htexts hi, carryOut, messageBoxChoice_eq htype]
  rfl

end

theorem Panel.picks : host.Picks := by
  intro type labels default icon text caption p d htype hd
  rw [call_messageBox htype] at hd
  exact ⟨_, (Except.ok.inj hd).symm, defaultButton_bounds (length_labels_pos htype) default⟩

theorem Headless.picks : host.Picks := by
  intro type labels default icon text caption h d htype hd
  cases htexts : Value.allWritten [.token type, .int default, icon, text, caption] with
  | error f =>
    simp only [host, call, forward, htexts] at hd
    cases hd
  | ok texts =>
    rw [call_messageBox htype default icon text caption htexts] at hd
    exact ⟨_, (Except.ok.inj hd).symm, defaultButton_bounds (length_labels_pos htype) default⟩

theorem Window.call_messageBox (type : String) (default : Int) (icon text caption : Value) (w : Window) :
    (host.call (.forward .messageBox [.token type, .int default, icon, text, caption]) w).1 =
      (((messageBox (.text type) (.int default) icon.bare text.bare caption.bare).run.run w).1.map .int).mapError
        .failure := by
  have hi : Instruction.ofCall? .messageBox [.token type, .int default, icon, text, caption] =
    some (.messageBox (.text type) (.int default) icon.bare text.bare caption.bare) := rfl
  rw [call_forward hi]
  change Except.mapError _ ((messageBox _ _ _ _ _ >>= fun n => pure (Datum.int n)).run.run w).1 = _
  rw [run_bind]
  rcases (messageBox (.text type) (.int default) icon.bare text.bare caption.bare).run.run w with ⟨_ | n, w'⟩ <;> rfl

theorem Window.picks : host.Picks := by
  intro type labels default icon text caption w d htype hd
  rw [call_messageBox] at hd
  cases hn : ((messageBox (.text type) (.int default) icon.bare text.bare caption.bare).run.run w).1 with
  | error f =>
    rw [hn] at hd
    cases hd
  | ok n =>
    rw [hn] at hd
    cases hd
    obtain ⟨labels', chosen, hchoice, hpicked⟩ := messageBox_picks _ _ _ _ _ w n hn
    rw [messageBoxChoice_eq htype] at hchoice
    cases hchoice
    refine ⟨n, rfl, ?_⟩
    rcases hpicked with rfl | hpicked
    · exact defaultButton_bounds (length_labels_pos htype) default
    · exact hpicked

/-! ## Statements -/

/-- The statement shows a message box with these buttons, and the answer goes to the variable `x`. -/
def Statement.Asks (st : Statement) (labels : List String) (x : String) : Prop :=
  ∃ type args, st.action = .call .messageBox args ∧ args.head?.map (·.value) = some (.token type) ∧
    (type, labels) ∈ messageBoxButtons ∧ args.getLast?.map (·.value) = some (.var x)

theorem Signature.Admits.of_messageBox {args : List Argument} (h : (Command.signature .messageBox).Admits args) :
    ∃ type labels icon mark text caption x, (type, labels) ∈ messageBoxButtons ∧ (icon, mark) ∈ Window.iconMarks ∧
      args.head?.map (·.value) = some (.token type) ∧ args.getLast?.map (·.value) = some (.var x) ∧
      ∀ s : State, ∃ n, args.map s.resolve =
        [.token type, .int n, .token icon, .text text, .text caption] ++ [.var x] := by
  rcases h with _ | ⟨h1, _ | ⟨h2, _ | ⟨h3, _ | ⟨h4, _ | ⟨h5, _ | ⟨h6, ⟨⟩⟩⟩⟩⟩⟩⟩
  obtain ⟨type, htype, rfl⟩ := h1.of_token
  obtain ⟨icon, hicon, rfl⟩ := h3.of_token
  obtain ⟨text, rfl⟩ := h4.of_str
  obtain ⟨caption, rfl⟩ := h5.of_str
  obtain ⟨x, rfl⟩ := h6.of_var
  have htypes : messageBoxTypes = messageBoxButtons.map (·.1) := rfl
  have hicons : messageBoxIcons = Window.iconMarks.map (·.1) := rfl
  obtain ⟨⟨type, labels⟩, hlabels, rfl⟩ := List.mem_map.mp (htypes ▸ htype)
  obtain ⟨⟨icon, mark⟩, hmark, rfl⟩ := List.mem_map.mp (hicons ▸ hicon)
  refine ⟨type, labels, icon, mark, text, caption, x, hlabels, hmark, rfl, rfl, fun s => ?_⟩
  obtain ⟨n, hn⟩ := h2.resolve_int (s := s)
  exact ⟨n, by rw [List.map_cons, List.map_cons, hn]; rfl⟩

namespace Engine

variable {σ : Type} {g : Engine} {h : Host σ} {st : Statement} {m m' : Machine σ} {args : List Argument} {vs : List Value}
  {x : String}

theorem CarriesOut.answered (hc : g.CarriesOut h st m m') (hact : st.action = .call .messageBox args)
    (hargs : args.map (g.entering h st m).state.resolve = vs ++ [.var x]) :
    ∃ d w n, (h.call (.forward .messageBox vs) w).1 = .ok d ∧ buttonNumber d = .ok n ∧
      m'.state = ((g.entering h st m).state.set x n).advance := by
  have hperformed := performed g h st (g.entering h st m)
  rw [hc.done] at hperformed
  cases hperformed with
  | @done _ d w w' pl s' _ hplan hask hs' =>
    have hplanned := planned_of_plan hplan
    rw [hact] at hplanned
    cases hplanned with
    | messageBox hlast =>
      rw [hargs, List.getLast?_concat] at hlast
      cases hlast
      obtain ⟨n, hn, hs'⟩ := Except.bind_eq_ok.mp hs'
      cases hs'
      have hcall := Host.askAll_singleton_eq_ok hask
      rw [hargs, List.dropLast_concat] at hcall
      exact ⟨d, w, n, by rw [hcall], hn, rfl⟩
    | forward hc => simp at hc

theorem carriesOut_of_answer (hrun : m.state.status = .running) (hst : g.program.statements[m.state.pc]? = some st)
    (hact : st.action = .call .messageBox args)
    (hargs : args.map (g.entering h st m).state.resolve = vs ++ [.var x]) {d : Datum} {n : Int} {w : σ}
    (hcheck : h.call .checkEvents (g.entering h st m).world = (.ok d, w))
    (hanswer : (h.call (.forward .messageBox vs) w).1 = .ok (.int n)) : ∃ m', g.CarriesOut h st m m' := by
  have hplan : plan g.program g.maxStack (g.entering h st m).state st = .ok {
      prepared := (g.entering h st m).state
      requests := [.forward .messageBox vs]
      complete := fun reply => do
        let n ← buttonNumber reply
        return ((g.entering h st m).state.set x n).advance } := by
    simp only [plan, hact, planCall, hargs, List.getLast?_concat, List.dropLast_concat]
  have hask := Host.ask_eq_ok.mpr hcheck
  have hforward := Host.ask_eq_ok.mpr (Prod.ext hanswer rfl)
  refine ⟨⟨((g.entering h st m).state.set x n).advance, (h.call (.forward .messageBox vs) w).2⟩, hrun, hst, ?_⟩
  simp only [perform, hask, hplan, Host.askAll, hforward, buttonNumber_int]
  rfl

end Engine

/-- The variable `x` holds the number of one of the buttons. -/
def State.HoldsButton (s : State) (x : String) (labels : List String) : Prop :=
  1 ≤ s.vars.get x ∧ s.vars.get x ≤ labels.length

namespace Engine

section

variable {σ : Type} {g : Engine} {h : Host σ} {st : Statement} {m m' : Machine σ} {x : String}

theorem CarriesOut.holdsButton (hh : h.Picks) (hc : g.CarriesOut h st m m') (hproper : st.action.Proper)
    {labels : List String} (hasks : st.Asks labels x) : m'.state.HoldsButton x labels := by
  obtain ⟨type, args, hact, hhead, htype, hlast⟩ := hasks
  rw [hact] at hproper
  obtain ⟨type', _, icon, mark, text, caption, x', -, -, hhead', hlast', hvalues⟩ := Signature.Admits.of_messageBox hproper
  cases hhead.symm.trans hhead'
  cases hlast.symm.trans hlast'
  obtain ⟨default, hargs⟩ := hvalues (g.entering h st m).state
  obtain ⟨d, w, n, hanswer, hn, hstate⟩ := hc.answered hact hargs
  obtain ⟨k, rfl, hk⟩ := hh htype hanswer
  rw [buttonNumber_int] at hn
  cases hn
  have hget : (((g.entering h st m).state.set x n).advance).vars.get x = n := NameTable.get_set _ x n
  rwa [State.HoldsButton, hstate, hget]

end

variable {g : Engine} {st : Statement} {args : List Argument}

theorem carriesOut_plain (hproper : st.action.Proper) (hact : st.action = .call .messageBox args) {m : Machine Panel}
    (hrun : m.state.status = .running) (hst : g.program.statements[m.state.pc]? = some st) :
    ∃ m', g.CarriesOut Panel.host st m m' := by
  rw [hact] at hproper
  obtain ⟨type, labels, icon, mark, text, caption, x, htype, -, -, -, hvalues⟩ := Signature.Admits.of_messageBox hproper
  obtain ⟨default, hargs⟩ := hvalues (g.entering Panel.host st m).state
  exact carriesOut_of_answer hrun hst hact hargs rfl (Panel.call_messageBox htype default _ _ _ _)

theorem carriesOut_headless (hproper : st.action.Proper) (hact : st.action = .call .messageBox args) {m : Machine Headless}
    (hm : m.state.Near) (hrun : m.state.status = .running) (hst : g.program.statements[m.state.pc]? = some st) :
    ∃ m', g.CarriesOut Headless.host st m m' := by
  rw [hact] at hproper
  obtain ⟨type, labels, icon, mark, text, caption, x, htype, -, -, -, hvalues⟩ := Signature.Admits.of_messageBox hproper
  obtain ⟨default, hargs⟩ := hvalues (g.entering Headless.host st m).state
  have hnear : (g.entering Headless.host st m).state.Near := ⟨hm.vars, hm.mouse⟩
  have hwritten := hnear.written (c := .messageBox) hproper
  rw [hargs] at hwritten
  obtain ⟨texts, htexts⟩ := Value.allWritten_of_forall fun v hv => hwritten v (List.mem_append_left _ hv)
  exact carriesOut_of_answer hrun hst hact hargs rfl (Headless.call_messageBox htype default _ _ _ htexts _)

theorem carriesOut_window (hproper : st.action.Proper) (hact : st.action = .call .messageBox args) {m : Machine Window}
    (hm : m.world.situation.Orderly) {window : Rect} (hframe : m.world.frameRect = .ok window)
    (hopen : m.world.isClosing.1 = false) (hrun : m.state.status = .running)
    (hst : g.program.statements[m.state.pc]? = some st) : ∃ m', g.CarriesOut Window.host st m m' := by
  rw [hact] at hproper
  obtain ⟨type, labels, icon, mark, text, caption, x, htype, hicon, -, -, hvalues⟩ :=
    Signature.Admits.of_messageBox hproper
  obtain ⟨default, hargs⟩ := hvalues (g.entering Window.host st m).state
  -- A record in the log changes nothing that counts.
  obtain ⟨w, hw, hsame⟩ : ∃ w, (g.entering Window.host st m).world = w ∧ w.situation = m.world.situation ∧
      w.frameRect = m.world.frameRect ∧ w.isClosing.1 = m.world.isClosing.1 := by
    refine ⟨_, rfl, ?_⟩
    unfold entering
    dsimp only
    split <;> exact ⟨rfl, rfl, rfl⟩
  have hcheck : Window.host.call .checkEvents w = (.ok .none, w.isClosing.2) := by
    simp only [Window.host, Window.call, hsame.2.2, hopen]
    rfl
  have heffect : Window.Effect id False w.situation w.isClosing.2.situation := Window.isClosing_effect w
  have horderly : w.isClosing.2.situation.Orderly := by
    refine heffect.orderly (hsame.1 ▸ hm) (congrArg Inputs.menu heffect.inputs) ?_
    rw [heffect.deadline id, hsame.1]
    exact hm.deadline
  have hframe' : w.isClosing.2.frameRect = .ok window := (hsame.2.1 ▸ hframe :)
  -- If nothing else does, the end of the window settles the box.
  have hends : ∃ e ∈ w.isClosing.2.situation.queue ++ [.quit], ∃ n, Window.Settles
      (w.isClosing.2.boxButtons window mark text caption labels) (defaultButton labels.length default) e n :=
    ⟨.quit, List.mem_append_right _ (List.mem_singleton.mpr rfl), _, .quit⟩
  obtain ⟨before, e, after, n, hqueue, hbefore, he⟩ := Window.exists_first_settles hends
  have hlikely : ∀ b ∈ before, b.Plausible := by
    intro b hb
    have hmem : b ∈ w.isClosing.2.situation.queue ++ [.quit] := hqueue ▸ List.mem_append_left _ hb
    rcases List.mem_append.mp hmem with hmem | hmem
    · exact horderly.awaits b (List.mem_append.mp hmem)
    · rw [List.mem_singleton.mp hmem]
      trivial
  obtain ⟨w', hbox, -⟩ := Window.messageBox_first htype hicon horderly.presentable hframe' hqueue hlikely hbefore he
  have hanswer := Window.call_messageBox type default (.token icon) (.text text) (.text caption) w.isClosing.2
  have hmark := congrArg (fun r => (r.1.map Datum.int).mapError Signal.failure) hbox
  rw [← hw] at hcheck
  exact carriesOut_of_answer hrun hst hact hargs hcheck (hw ▸ hanswer.trans hmark)

/-- A message box is settled by the first event that can do it, and its variable holds one of its buttons. -/
theorem messageBox_settled {source : String} {pedantic : Bool} {p : Program}
    (hp : Program.parse source pedantic = .ok p) (maxStack : Int) (trace : Bool) :
    let g : Engine := ⟨p, maxStack, trace⟩
    (∀ (w : Window) (window : Rect) (type icon mark text caption : String) (labels : List String) (default : Int),
      w.situation.Presentable → w.frameRect = .ok window → (∀ e ∈ w.situation.queue, e.Plausible) →
      (type, labels) ∈ messageBoxButtons → (icon, mark) ∈ Window.iconMarks →
      let buttons := w.boxButtons window mark text caption labels
      let chosen := defaultButton labels.length default
      buttons.length = labels.length ∧ buttons.Pairwise Rect.Apart ∧
      ((∃ e ∈ w.situation.queue, ∃ n, Window.Settles buttons chosen e n) →
        ∃ before e after n w', w.situation.queue = before ++ e :: after ∧
          (∀ b ∈ before, ∀ k, ¬ Window.Settles buttons chosen b k) ∧ (∀ k, Window.Settles buttons chosen e k ↔ k = n) ∧
          (Window.messageBox (.text type) (.int default) (.text icon) (.text text) (.text caption)).run.run w =
            (.ok n, w') ∧
          w'.situation = w.situation.taken (before.length + 1) (if e = .quit then [.quit] else []))) ∧
    ∀ (i : Nat) (st : Statement) (args : List Argument), p.statements[i]? = some st →
      st.action = .call .messageBox args → ∃ labels x, st.Asks labels x ∧
      (∀ m m' : Machine Panel, g.CarriesOut Panel.host st m m' → m'.state.HoldsButton x labels) ∧
      (∀ m m' : Machine Headless, g.CarriesOut Headless.host st m m' → m'.state.HoldsButton x labels) ∧
      (∀ m m' : Machine Window, g.CarriesOut Window.host st m m' → m'.state.HoldsButton x labels) ∧
      (∀ m : Machine Panel, m.state.status = .running → p.statements[m.state.pc]? = some st →
        ∃ m', g.CarriesOut Panel.host st m m') ∧
      (∀ (vars : Variables) (w : Headless) (ops : List Op), (∀ e ∈ vars.entries, Fits e.2) →
        (∀ op ∈ ops, op.drives = true) → let m := g.after Headless.host ⟨{ vars }, w⟩ ops
        m.state.status = .running → p.statements[m.state.pc]? = some st → ∃ m', g.CarriesOut Headless.host st m m') ∧
      (∀ (m : Machine Window) (window : Rect), Underway g m → m.world.frameRect = .ok window →
        m.world.isClosing.1 = false → m.state.status = .running → p.statements[m.state.pc]? = some st →
        ∃ m', g.CarriesOut Window.host st m m') := by
  obtain ⟨lines, hlines, rfl⟩ := Program.parse_eq_ofLines hp
  have wf := Program.ofLines_wellFormed hlines
  refine ⟨?_, ?_⟩
  · intro w window type icon mark text caption labels default hw hframe hlikely htype hicon buttons chosen
    have hapart : buttons.Pairwise Rect.Apart := Window.buttons_apart _ _ _ _ _
    refine ⟨Window.length_buttons _ _ _ _ _, hapart, ?_⟩
    intro hsome
    obtain ⟨before, e, after, n, hqueue, hbefore, he⟩ := Window.exists_first_settles hsome
    have hqueue' : w.situation.queue ++ [.quit] = before ++ e :: (after ++ [.quit]) := by rw [hqueue]; simp
    have hearlier : ∀ b ∈ before, b.Plausible := fun b hb => hlikely b (hqueue ▸ List.mem_append_left _ hb)
    obtain ⟨w', hrun, hw'⟩ := Window.messageBox_first htype hicon hw hframe hqueue' hearlier hbefore he
    refine ⟨before, e, after, n, w', hqueue, hbefore, fun k => ⟨fun hk => he.unique hapart hk, ?_⟩, hrun, hw'⟩
    rintro rfl
    exact he
  · intro i st args hst hact
    have hproper := wf.proper i st hst
    have hadmits := hproper
    rw [hact] at hadmits
    obtain ⟨type, labels, _, _, _, _, x, htype, -, hhead, hlast, -⟩ := Signature.Admits.of_messageBox hadmits
    have hasks : st.Asks labels x := ⟨type, args, hact, hhead, htype, hlast⟩
    refine ⟨labels, x, hasks, ?_, ?_, ?_, ?_, ?_, ?_⟩
    · exact fun m m' hc => hc.holdsButton Panel.picks hproper hasks
    · exact fun m m' hc => hc.holdsButton Headless.picks hproper hasks
    · exact fun m m' hc => hc.holdsButton Window.picks hproper hasks
    · exact fun m hrun hat => carriesOut_plain hproper hact hrun hat
    · intro vars w ops hvars hops m hrun hat
      have hnear := (preserves_near (g := ⟨Program.ofLines lines, maxStack, trace⟩) wf
        (Headless.answers.mono .of_fits)).after (m := ⟨{ vars }, w⟩) hops ⟨fun e he => .of_fits (hvars e he), nofun⟩
      exact carriesOut_headless hproper hact hnear hrun hat
    · intro m window hm hframe hopen hrun hat
      exact carriesOut_window hproper hact (hm.orderly wf).window hframe hopen hrun hat

/-- A click with the right button, a key and a click between two buttons come before a click on the second one. -/
def strayEvents : List DisplayEvent :=
  [.click ⟨410, 320⟩ 3, .key 98 0 "b", .click ⟨400, 320⟩ 1, .click ⟨410, 320⟩ 1, .quit]

theorem messageBox_settled_second :
    ∃ (p : Program) (w : Window) (st : Statement),
      Program.parse "MessageBox(YESNO,7,QUESTION,\"a\",\"b\",x)" false = .ok p ∧ Underway ⟨p, 10000, false⟩ ⟨{}, w⟩ ∧
      w.situation.queue = strayEvents ∧ w.frameRect = .ok ⟨0, 0, 800, 600⟩ ∧ w.isClosing.1 = false ∧
      p.statements[0]? = some st ∧
      (∃ before e after w', strayEvents = before ++ e :: after ∧
        (Window.messageBox (.text "YESNO") (.int 7) (.text "QUESTION") (.text "a") (.text "b")).run.run w = (.ok 2, w') ∧
        w'.situation = w.situation.taken (before.length + 1) (if e = .quit then [.quit] else [])) ∧
      ∃ labels x m', st.Asks labels x ∧ CarriesOut ⟨p, 10000, false⟩ Window.host st ⟨{}, w⟩ m' ∧
        m'.state.HoldsButton x labels := by
  have hrun : (Program.parse "MessageBox(YESNO,7,QUESTION,\"a\",\"b\",x)" false).toOption.map (fun p =>
      (Window.open { display := { events := strayEvents } } (.text "c") none).toOption.map fun w =>
      w.frameRect.toOption.map fun window =>
      ((Window.messageBox (.text "YESNO") (.int 7) (.text "QUESTION") (.text "a") (.text "b")).run.run
        w).1.toOption.map fun n =>
      decide (window = ⟨0, 0, 800, 600⟩ ∧ w.isClosing.1 = false ∧ n = 2 ∧ p.statements[0]?.map (·.action) =
        some (.call .messageBox [⟨.token, .token "YESNO"⟩, ⟨.integer, .int 7⟩, ⟨.token, .token "QUESTION"⟩,
          ⟨.string, .text "a"⟩, ⟨.string, .text "b"⟩, ⟨.variable, .var "x"⟩]))) =
      some (some (some (some true))) := by decide +kernel
  obtain ⟨p, hparse, hrun⟩ := Except.exists_of_map_toOption hrun
  obtain ⟨w, hopen, hrun⟩ := Except.exists_of_map_toOption hrun
  obtain ⟨window, hframe, hrun⟩ := Except.exists_of_map_toOption hrun
  obtain ⟨n, hn, hrun⟩ := Except.exists_of_map_toOption hrun
  obtain ⟨rfl, hclosing, rfl, hst⟩ := of_decide_eq_true hrun
  obtain ⟨st, hst, hact⟩ := Option.map_eq_some_iff.mp hst
  have hlikely : ∀ e ∈ strayEvents, e.Plausible := by
    simp [strayEvents, DisplayEvent.Plausible]
    decide
  have hqueue : w.situation.queue = strayEvents := by rw [Window.open_situation hopen]; rfl
  have hm : Underway ⟨p, 10000, false⟩ ⟨{}, w⟩ := by
    refine .start hopen (fun e he => ?_) (by simp)
    rcases he with he | he
    · cases he
    · exact hlikely e he
  have hw : w.situation.Presentable := by
    rw [Window.open_situation hopen]
    exact ⟨List.forall_mem_nil _, fun index hindex => by cases hindex⟩
  obtain ⟨hbox, hstatements⟩ := messageBox_settled hparse 10000 false
  obtain ⟨-, -, hsettled⟩ := hbox w _ "YESNO" "QUESTION" "?" "a" "b" ["Yes", "No"] 7 hw hframe (hqueue ▸ hlikely)
    (by decide) (by decide)
  obtain ⟨before, e, after, k, w', hsplit, -, -, hanswer, hw'⟩ :=
    hsettled ⟨.quit, by rw [hqueue]; decide, _, .quit⟩
  obtain rfl : k = 2 := Except.ok.inj ((congrArg Prod.fst hanswer).symm.trans hn)
  obtain ⟨labels, x, hasks, -, -, hholds, -, -, hshows⟩ := hstatements 0 st _ hst hact
  obtain ⟨m', hm'⟩ := hshows ⟨{}, w⟩ _ hm hframe hclosing rfl hst
  exact ⟨p, w, st, hparse, hm, hqueue, hframe, hclosing, hst, ⟨before, e, after, w', hqueue ▸ hsplit, hanswer, hw'⟩,
    labels, x, m', hasks, hm', hholds _ _ hm'⟩

end Engine

end GraphicsBatch
