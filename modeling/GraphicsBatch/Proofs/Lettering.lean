import GraphicsBatch.Proofs.Effects

/-!
# The lettering of texts

A text is rendered with a font of some number. What counts about the font is the lettering in which it was made: its face
and whether it is underlined. A text of the program comes out in the lettering that the text style asks for.
-/

namespace GraphicsBatch

/-! ## What is shown -/

/-- How the letters of a font look. -/
structure Lettering where
  face : Typeface
  underline : Bool
deriving DecidableEq

/-- What a call shows. -/
inductive Shown where
  | text (surface : Nat) (lettering : Option Lettering) (text : Value) (colour : Colour) (background : Option Colour)
  | other (c : Call)

/-- All texts are in letterings of some kind. -/
def Shown.Within (allowed : Lettering → Prop) : Shown → Prop
  | .text _ lettering _ _ _ => ∃ l, lettering = some l ∧ allowed l
  | .other _ => True

/-- The lettering and the text, where a text is shown. -/
def Shown.text? : Shown → Option (Option Lettering × Value)
  | text _ lettering s _ _ => some (lettering, s)
  | other _ => none

/-- The fonts that have been made, by their numbers, and all that has been shown. -/
structure Gallery where
  fonts : Nat → Option Lettering := fun _ => none
  shown : List Shown := []

/-- The making of a font shows nothing. -/
def Gallery.after (g : Gallery) : Call → Gallery
  | .font id name height bold italic =>
    { g with fonts := fun k => if k = id then some ⟨⟨name, height, bold, italic⟩, false⟩ else g.fonts k }
  | .underline id on =>
    { g with fonts := fun k => if k = id then (g.fonts k).map fun l => { l with underline := on } else g.fonts k }
  | .render surface font text colour background =>
    { g with shown := g.shown ++ [.text surface (g.fonts font) text colour background] }
  | c => { g with shown := g.shown ++ [.other c] }

def Display.gallery (d : Display) : Gallery := d.calls.toList.foldl Gallery.after {}

theorem Display.gallery_push (d : Display) (c : Call) : (d.push c).gallery = d.gallery.after c := by
  simp [gallery, push]

/-- Calls that have nothing to do with fonts. -/
def Call.plain : Call → Bool
  | .font .. | .underline .. | .render .. => false
  | _ => true

theorem Gallery.fonts_after {c : Call} (hc : c.plain = true) (g : Gallery) : (g.after c).fonts = g.fonts := by
  cases c <;> first | rfl | cases hc

theorem Gallery.shown_after {c : Call} (hc : c.plain = true) (g : Gallery) : (g.after c).shown = g.shown ++ [.other c] := by
  cases c <;> first | rfl | cases hc

namespace TextStyle

/-- The height in pixels of letters of a style. -/
def pixelHeight (style : TextStyle) (scale : Float) : Except NumberFault Int :=
  if style.height = 0 then .ok Window.defaultTextHeight
  else do return max 1 (← Binary64.truncate ((← Binary64.ofInt style.height) * scale))

/-- The lettering that a style asks for. -/
def lettering (style : TextStyle) (scale : Float) : Except NumberFault Lettering := do
  return ⟨⟨Window.fontName style.name, ← style.pixelHeight scale, style.bold, style.italic⟩, style.underline⟩

theorem lettering_eq_ok {style : TextStyle} {scale : Float} {l : Lettering} :
    style.lettering scale = .ok l ↔ ∃ height, style.pixelHeight scale = .ok height ∧
      l = ⟨⟨Window.fontName style.name, height, style.bold, style.italic⟩, style.underline⟩ := by
  unfold lettering
  cases style.pixelHeight scale with
  | error e => simp [bind, Except.bind]
  | ok height => simp [bind, Except.bind, pure, Except.pure, eq_comm]

/-- The texts that are rendered one after the other where a text is drawn. -/
def pieces (style : TextStyle) (text : Value) : List Value := if style.width = 0 then [text] else text.parts?.getD []

end TextStyle

namespace Window

def gallery (w : Window) : Gallery := w.display.gallery

/-- A window without its fonts and what it has shown. -/
def bare (w : Window) : Window :=
  { w.mapDisplay fun d => { d with fonts := 0, calls := #[] } with font := none }

/-- A window has a font, in some lettering. -/
structure Has (w : Window) (f : Font) (l : Lettering) : Prop where
  id : f.id ≤ w.display.fonts
  letters : w.gallery.fonts f.id = some l
  face : f = w.display.metrics.font f.id l.face

theorem Has.of_display {w w₁ : Window} {f : Font} {l : Lettering} (hf : w.Has f l) (h : w₁.display = w.display) :
    w₁.Has f l := by
  obtain ⟨hid, hletters, hface⟩ := hf
  rw [gallery, ← h] at hletters
  exact ⟨h ▸ hid, hletters, h ▸ hface⟩

/-- All fonts of a window are still there, and nothing else about texts has changed. -/
structure Onward (w w₁ : Window) : Prop where
  style : w₁.textStyle = w.textStyle
  scale : w₁.scale = w.scale
  metrics : w₁.display.metrics = w.display.metrics
  fonts : w.display.fonts ≤ w₁.display.fonts
  letters : ∀ id ≤ w.display.fonts, w₁.gallery.fonts id = w.gallery.fonts id

theorem Onward.refl (w : Window) : w.Onward w := ⟨rfl, rfl, rfl, Nat.le_refl _, fun _ _ => rfl⟩

theorem Has.onward {w w₁ : Window} {f : Font} {l : Lettering} (hf : w.Has f l) (h : w.Onward w₁) : w₁.Has f l where
  id := Nat.le_trans hf.id h.fonts
  letters := (h.letters f.id hf.id).trans hf.letters
  face := by
    rw [h.metrics]
    exact hf.face

/-- What a window has to do with texts. -/
structure Texts where
  style : TextStyle
  scale : Float
  font : Option Font
  metrics : Metrics
  fonts : Nat
  calls : Array Call

def texts (w : Window) : Texts :=
  ⟨w.textStyle, w.scale, w.font, w.display.metrics, w.display.fonts, w.display.calls⟩

theorem gallery_of_texts {w w₁ : Window} (h : w₁.texts = w.texts) : w₁.gallery = w.gallery :=
  congrArg (fun t : Texts => t.calls.toList.foldl Gallery.after {}) h

theorem onward_of_texts {w w₁ : Window} (h : w₁.texts = w.texts) : w.Onward w₁ where
  style := congrArg Texts.style h
  scale := congrArg Texts.scale h
  metrics := congrArg Texts.metrics h
  fonts := Nat.le_of_eq (congrArg Texts.fonts h).symm
  letters id _ := congrArg (·.fonts id) (gallery_of_texts h)

/-! ## Fonts -/

theorem run_emit (c : Call) (w : Window) : (emit c).run.run w = (.ok (), w.mapDisplay (·.push c)) := rfl

@[simp]
theorem display_mapDisplay (f : Display → Display) (w : Window) : (w.mapDisplay f).display = f w.display := rfl

@[simp]
theorem textStyle_mapDisplay (f : Display → Display) (w : Window) : (w.mapDisplay f).textStyle = w.textStyle := rfl

@[simp]
theorem scale_mapDisplay (f : Display → Display) (w : Window) : (w.mapDisplay f).scale = w.scale := rfl

theorem bare_mapDisplay (f : Display → Display) (hf : ∀ d : Display, ({ f d with fonts := 0, calls := #[] } : Display) =
    { d with fonts := 0, calls := #[] }) (w : Window) : (w.mapDisplay f).bare = w.bare :=
  congrArg (fun d => { w.mapDisplay fun _ => d with font := none }) (hf w.display)

theorem bare_push (w : Window) (c : Call) : (w.mapDisplay (·.push c)).bare = w.bare :=
  bare_mapDisplay (·.push c) (fun _ => rfl) w

theorem gallery_push (w : Window) (c : Call) : (w.mapDisplay (·.push c)).gallery = w.gallery.after c :=
  w.display.gallery_push c

theorem onward_push (w : Window) {c : Call} (hc : ∀ g : Gallery, (g.after c).fonts = g.fonts) :
    w.Onward (w.mapDisplay (·.push c)) :=
  ⟨rfl, rfl, rfl, Nat.le_refl _, fun id _ => by rw [gallery_push, hc]⟩

/-- A window with one more font. -/
def withFont (face : Typeface) (w : Window) : Window :=
  (w.mapDisplay fun d => { d with fonts := d.fonts + 1 }).mapDisplay
    (·.push (.font (w.display.fonts + 1) face.name face.height face.bold face.italic))

theorem run_newFont (name : Value) (height : Int) (bold italic : Bool) (w : Window) :
    (newFont name height bold italic).run.run w =
      (.ok (w.display.metrics.font (w.display.fonts + 1) ⟨name, height, bold, italic⟩),
        w.withFont ⟨name, height, bold, italic⟩) := rfl

theorem bare_withFont (face : Typeface) (w : Window) : (w.withFont face).bare = w.bare := by
  rw [withFont, bare_push]
  exact bare_mapDisplay (fun d => { d with fonts := d.fonts + 1 }) (fun _ => rfl) w

theorem gallery_withFont (face : Typeface) (w : Window) :
    (w.withFont face).gallery = w.gallery.after (.font (w.display.fonts + 1) face.name face.height face.bold face.italic) :=
  gallery_push _ _

theorem onward_withFont (face : Typeface) (w : Window) : w.Onward (w.withFont face) where
  style := by simp [withFont]
  scale := by simp [withFont]
  metrics := by simp [withFont, Display.push]
  fonts := by simp [withFont, Display.push]
  letters id hid := by
    rw [gallery_withFont]
    exact if_neg (by omega)

theorem has_withFont (face : Typeface) (w : Window) :
    (w.withFont face).Has (w.display.metrics.font (w.display.fonts + 1) face) ⟨face, false⟩ where
  id := Nat.le_refl _
  letters := by
    rw [gallery_withFont]
    exact if_pos rfl
  face := rfl

/-- A font that is kept for later is the one that a style and a scale ask for. -/
def Caches (style : TextStyle) (scale : Float) (w : Window) : Prop :=
  ∀ f, w.font = some f → ∃ l, style.lettering scale = .ok l ∧ w.Has f l

theorem Caches.onward {style : TextStyle} {scale : Float} {w w₁ : Window} (h : w.Caches style scale) (ho : w.Onward w₁)
    (hfont : w₁.font = w.font) : w₁.Caches style scale := by
  intro f hf
  obtain ⟨l, hl, hhas⟩ := h f (hfont ▸ hf)
  exact ⟨l, hl, hhas.onward ho⟩

/-! ## The font of the text style -/

theorem textHeight_eq (w : Window) : w.textHeight = w.textStyle.pixelHeight w.scale := by
  by_cases hzero : w.textStyle.height = 0
  · rw [textHeight, TextStyle.pixelHeight, if_pos hzero, if_pos hzero]
  · rw [textHeight, TextStyle.pixelHeight, if_neg hzero, if_neg hzero, scaled]
    generalize Binary64.ofInt w.textStyle.height = x
    cases x <;> simp only [Except.map, bind, Except.bind]

/-- A window with one more font, which is kept for texts. -/
def withTextFont (l : Lettering) (w : Window) : Window :=
  { (w.withFont l.face).mapDisplay (·.push (.underline (w.display.fonts + 1) l.underline)) with
    font := some (w.display.metrics.font (w.display.fonts + 1) l.face) }

theorem display_withTextFont (l : Lettering) (w : Window) : (w.withTextFont l).display =
    (w.withFont l.face).display.push (.underline (w.display.fonts + 1) l.underline) := rfl

theorem bare_withTextFont (l : Lettering) (w : Window) : (w.withTextFont l).bare = w.bare := by
  rw [← bare_withFont l.face w]
  exact bare_push _ _

theorem gallery_withTextFont (l : Lettering) (w : Window) :
    (w.withTextFont l).gallery = (w.withFont l.face).gallery.after (.underline (w.display.fonts + 1) l.underline) :=
  gallery_push _ _

theorem onward_withTextFont (l : Lettering) (w : Window) : w.Onward (w.withTextFont l) where
  style := by simp [withTextFont, withFont]
  scale := by simp [withTextFont, withFont]
  metrics := by rw [display_withTextFont]; exact (onward_withFont l.face w).metrics
  fonts := by rw [display_withTextFont]; exact (onward_withFont l.face w).fonts
  letters id hid := by
    rw [gallery_withTextFont, ← (onward_withFont l.face w).letters id hid]
    exact if_neg (by omega)

theorem has_withTextFont (l : Lettering) (w : Window) :
    (w.withTextFont l).Has (w.display.metrics.font (w.display.fonts + 1) l.face) l where
  id := Nat.le_refl _
  letters := by
    have hmade : (w.withFont l.face).gallery.fonts (w.display.fonts + 1) = some ⟨l.face, false⟩ :=
      (has_withFont l.face w).letters
    rw [gallery_withTextFont]
    exact (if_pos rfl).trans (congrArg (Option.map fun m : Lettering => { m with underline := l.underline }) hmade)
  face := by
    rw [(onward_withTextFont l w).metrics]
    rfl

section

variable {style : TextStyle} {scale : Float} {w : Window} (hstyle : w.textStyle = style) (hscale : w.scale = scale)
  (hcache : w.Caches style scale)

include hstyle hscale hcache

theorem textFont_error {e : NumberFault} (h : style.pixelHeight scale = .error e) :
    textFont.run.run w = (.error (.number e), w) := by
  have hfont : w.font = none := by
    cases hfont : w.font with
    | none => rfl
    | some f =>
      obtain ⟨l, hl, -⟩ := hcache f hfont
      obtain ⟨height, hheight, -⟩ := TextStyle.lettering_eq_ok.mp hl
      cases h.symm.trans hheight
  unfold textFont
  rw [run_get_bind, hfont]
  dsimp only
  rw [textHeight_eq, hstyle, hscale, h]
  rfl

theorem textFont_ok {l : Lettering} (h : style.lettering scale = .ok l) :
    ∃ f w₁, textFont.run.run w = (.ok f, w₁) ∧ w.Onward w₁ ∧ w₁.bare = w.bare ∧
      w₁.gallery.shown = w.gallery.shown ∧ w₁.Has f l ∧ w₁.font = some f := by
  unfold textFont
  rw [run_get_bind]
  cases hfont : w.font with
  | some f =>
    obtain ⟨l', hl', hhas⟩ := hcache f hfont
    obtain rfl := Except.ok.inj (hl'.symm.trans h)
    exact ⟨f, w, rfl, .refl w, rfl, rfl, hhas, hfont⟩
  | none =>
    obtain ⟨height, hheight, hl⟩ := TextStyle.lettering_eq_ok.mp h
    refine ⟨w.display.metrics.font (w.display.fonts + 1) l.face, w.withTextFont l, ?_, onward_withTextFont l w,
      bare_withTextFont l w, ?_, has_withTextFont l w, rfl⟩
    · dsimp only
      rw [textHeight_eq, hstyle, hscale, hheight, hl]
      rfl
    · rw [gallery_withTextFont, gallery_withFont]
      rfl

end

/-! ## What is printed -/

/-- All texts that have been shown, with their letterings. -/
def printed (w : Window) : List (Option Lettering × Value) := w.gallery.shown.filterMap Shown.text?

/-- Where `act` succeeds at a window that has the font, it prints these texts with the font, and no others. -/
def Prints {α : Type} (f : Font) (l : Lettering) (vs : List Value) (act : Draw α) : Prop :=
  ∀ w w' a, w.Has f l → act.run.run w = (.ok a, w') →
    w'.Has f l ∧ w'.printed = w.printed ++ vs.map fun v => (some l, v)

namespace Prints

variable {α β : Type} {f : Font} {l : Lettering} {vs us : List Value}

theorem pure (a : α) : Prints f l [] (Pure.pure a : Draw α) := by
  intro w w' a hw hrun
  cases hrun
  exact ⟨hw, (List.append_nil _).symm⟩

theorem lift (x : Except Failure α) : Prints f l [] (liftM x : Draw α) := by
  intro w w' a hw hrun
  cases x <;> cases hrun
  exact ⟨hw, (List.append_nil _).symm⟩

theorem bind {act : Draw α} {k : α → Draw β} (h : Prints f l vs act) (hk : ∀ a, Prints f l us (k a)) :
    Prints f l (vs ++ us) (act >>= k) := by
  intro w w' b hw hrun
  rw [run_bind] at hrun
  rcases hact : act.run.run w with ⟨_ | a, w₁⟩ <;> rw [hact] at hrun
  · cases hrun
  · obtain ⟨hw₁, hprinted⟩ := h w w₁ a hw hact
    obtain ⟨hw', hprinted'⟩ := hk a w₁ w' b hw₁ hrun
    exact ⟨hw', by rw [hprinted', hprinted, List.map_append, List.append_assoc]⟩

theorem before {act : Draw α} {k : α → Draw β} (h : Prints f l [] act) (hk : ∀ a, Prints f l vs (k a)) :
    Prints f l vs (act >>= k) := bind h hk

theorem after {act : Draw α} {k : α → Draw β} (h : Prints f l vs act) (hk : ∀ a, Prints f l [] (k a)) :
    Prints f l vs (act >>= k) := by
  have hbind := bind h hk
  rwa [List.append_nil] at hbind

theorem look {k : Window → Draw α} (hk : ∀ w, Prints f l vs (k w)) : Prints f l vs (get >>= k) :=
  fun w w' a hw hrun => hk w w w' a hw hrun

theorem modify {g : Window → Window} (htexts : ∀ w, (g w).texts = w.texts) : Prints f l [] (modify g : Draw Unit) := by
  intro w w' _ hw hrun
  cases hrun
  refine ⟨hw.onward (onward_of_texts (htexts w)), ?_⟩
  rw [printed, gallery_of_texts (htexts w)]
  exact (List.append_nil _).symm

theorem emit {c : Call} (hc : c.plain = true) : Prints f l [] (Window.emit c) := by
  intro w w' _ hw hrun
  rw [run_emit] at hrun
  cases hrun
  refine ⟨hw.onward (w.onward_push fun g => g.fonts_after hc), ?_⟩
  simp [printed, gallery_push, Gallery.shown_after hc, Shown.text?]

theorem emitText (surface : Nat) (text : Value) (colour : Colour) (background : Option Colour) :
    Prints f l [text] (Window.emit (.render surface f.id text colour background)) := by
  intro w w' _ hw hrun
  rw [run_emit] at hrun
  cases hrun
  refine ⟨hw.onward (w.onward_push fun _ => rfl), ?_⟩
  simp [printed, gallery_push, Gallery.after, hw.letters, Shown.text?]

theorem forM {xs : List α} {k : α → Draw Unit} {text : α → Value} (hk : ∀ x ∈ xs, Prints f l [text x] (k x)) :
    Prints f l (xs.map text) (xs.forM k) := by
  induction xs with
  | nil => exact pure ()
  | cons x xs ih =>
    exact bind (hk x List.mem_cons_self) fun _ => ih fun x' hx' => hk x' (List.mem_cons_of_mem _ hx')

theorem measurable (text : Value) : Prints f l [] (Window.measurable text) := by
  unfold Window.measurable
  split
  · exact lift (.error misplaced)
  · exact pure ()

theorem number (width height : Int) : Prints f l [] (Window.number width height) :=
  look fun _ => before (modify fun _ => rfl) fun _ => pure _

theorem newSurface (width height : Int) (alpha : Bool) : Prints f l [] (Window.newSurface width height alpha) :=
  before (number _ _) fun _ => before (emit rfl) fun _ => pure _

theorem render (text : Value) (colour : Colour) (background : Option Colour) :
    Prints f l [text] (Window.render f text colour background) :=
  before (measurable text) fun _ => before (number _ _) fun _ => after (emitText _ _ _ _) fun _ => pure _

theorem spacedText (text : Value) (background : Option Colour) :
    Prints f l (text.parts?.getD []) (Window.spacedText f text background) := by
  refine look fun w => before (lift _) fun width => before (lift _) fun step => before (measurable text) fun _ => ?_
  refine before (newSurface _ _ _) fun s => before (emit rfl) fun _ => after ?_ fun _ => pure _
  suffices hparts : Prints f l ((text.parts?.getD []).zipIdx.map Prod.fst) _ by
    rwa [List.zipIdx_map_fst] at hparts
  exact forM fun x _ => after (render x.1 _ _) fun _ => emit rfl

theorem pixels (v : Value) : Prints f l [] (Window.pixels v) := before (lift _) fun _ => look fun _ => lift _

theorem pointAt (x y : Value) : Prints f l [] (Window.pointAt x y) :=
  before (pixels x) fun _ => before (pixels y) fun _ => pure _

end Prints

theorem drawText_prints {style : TextStyle} {scale : Float} {w w' : Window} (hstyle : w.textStyle = style)
    (hscale : w.scale = scale) (hcache : w.Caches style scale) {x y text : Value}
    (h : (drawText x y text).run.run w = (.ok (), w')) :
    ∃ l, style.lettering scale = .ok l ∧ w'.printed = w.printed ++ (style.pieces text).map fun v => (some l, v) := by
  unfold drawText at h
  rw [run_bind] at h
  cases hheight : style.pixelHeight scale with
  | error e =>
    rw [textFont_error hstyle hscale hcache hheight] at h
    cases h
  | ok height =>
    obtain ⟨l, hl⟩ : ∃ l, style.lettering scale = .ok l := ⟨_, TextStyle.lettering_eq_ok.mpr ⟨height, hheight, rfl⟩⟩
    obtain ⟨f, w₁, hrun, honward, -, hshown, hhas, -⟩ := textFont_ok hstyle hscale hcache hl
    rw [hrun] at h
    dsimp only at h
    rw [run_get_bind] at h
    -- Whatever makes the surface, placing it and putting it on the canvas print nothing more.
    have hrest : ∀ {act : Draw Surface}, Prints f l (style.pieces text) act → Prints f l (style.pieces text) (do
        let s ← act
        let place ← pointAt x y
        emit (.blit w₁.canvas.id s.id (.point place) false)) :=
      fun hact => .after hact fun _ => .before (.pointAt x y) fun _ => .emit rfl
    have hwidth : w₁.textStyle.width = style.width := by rw [honward.style, hstyle]
    rw [show w.printed = w₁.printed by rw [printed, printed, hshown]]
    refine ⟨l, hl, ?_⟩
    split at h
    · rename_i hzero
      have hpieces : style.pieces text = [text] := if_pos (hwidth ▸ hzero)
      exact (hrest (hpieces ▸ .render _ _ _) w₁ w' () hhas h).2
    · rename_i hzero
      have hpieces : style.pieces text = text.parts?.getD [] := if_neg (hwidth ▸ hzero)
      exact (hrest (hpieces ▸ .spacedText _ _) w₁ w' () hhas h).2

end Window

end GraphicsBatch
