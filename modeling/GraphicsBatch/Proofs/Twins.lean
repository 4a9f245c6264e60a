import GraphicsBatch.Proofs.Lettering

/-!
# Two windows side by side

Two windows may differ in how many fonts they have made, and when, and still show the same. What counts about a text is
the lettering it is shown in, and not the number of its font. Rule by rule, drawing at both windows shows the same, as
long as a font that is kept for later is the one that would be made anew.
-/

namespace GraphicsBatch

/-- Fonts of one face, whatever their numbers. -/
structure Font.Alike (f f' : Font) : Prop where
  height : f.height = f'.height
  widthOf : f.widthOf = f'.widthOf
  lineHeight : f.lineHeight = f'.lineHeight

theorem Font.Alike.dialogLayout {f f' : Font} (h : f.Alike f') (window : Rect) (message caption : Value) (count : Nat) :
    Window.dialogLayout window f message caption count = Window.dialogLayout window f' message caption count := by
  unfold Window.dialogLayout
  rw [h.widthOf, h.lineHeight]

/-- What is seen at a display, and how it is left, has nothing to do with its fonts and calls. -/
structure Display.Apart {α : Type} (see : Display → α × Display) : Prop where
  calls : ∀ (d : Display) (fonts : Nat) (calls : Array Call),
    see { d with fonts, calls } = ((see d).1, { (see d).2 with fonts, calls })
  metrics : ∀ d, (see d).2.metrics = d.metrics

theorem Display.takeEvent_apart : Apart takeEvent where
  calls d fonts calls := by
    cases hposted : d.posted with
    | cons e rest => simp only [takeEvent, hposted]
    | nil => cases hevents : d.events <;> simp only [takeEvent, hposted, hevents]
  metrics d := by
    unfold takeEvent
    split
    · rfl
    · split <;> rfl

theorem Display.hasFocus_apart : Apart hasFocus where
  calls d fonts calls := by
    rcases hfocus : d.focus with _ | ⟨b, _ | ⟨b', rest⟩⟩ <;> simp only [hasFocus, hfocus]
  metrics d := by
    unfold hasFocus
    split <;> rfl

theorem Display.peekQuit_apart : Apart peekQuit where
  calls d fonts calls := by cases hclose : d.closeAfter <;> simp only [peekQuit, hclose]
  metrics d := by cases hclose : d.closeAfter <;> simp only [peekQuit, hclose]

namespace Panel

theorem startWait_mapDisplay (f : Display → Display) (timeout : Value) (p : Panel) :
    (p.mapWorld (·.mapDisplay f)).startWait timeout = (p.startWait timeout).map (mapWorld (·.mapDisplay f)) := by
  unfold startWait
  split
  · rfl
  · rcases timeout.number with _ | n
    · rfl
    · simp only [bind, Except.bind]
      generalize Binary64.ofInt (max 0 n) = x
      cases x <;> rfl

theorem carryOut_mapDisplay (f : Display → Display) (i : Instruction) (p : Panel) :
    (p.mapWorld (·.mapDisplay f)).carryOut i = ((p.carryOut i).1, (p.carryOut i).2.mapWorld (·.mapDisplay f)) := by
  cases i with
  | wait timeout =>
    simp only [carryOut, startWait_mapDisplay]
    cases p.startWait timeout <;> rfl
  | run command => cases command <;> rfl
  | _ => rfl

theorem carryOut_display (i : Instruction) (p : Panel) : (p.carryOut i).2.world.display = p.world.display := by
  have hsame := congrArg (·.2.world.display) (p.carryOut_mapDisplay (fun _ => p.world.display) i)
  exact hsame

end Panel

namespace Window

theorem Has.alike {w w' : Window} {f f' : Font} {l : Lettering} (hf : w.Has f l) (h : w.bare = w'.bare)
    (hf' : w'.Has f' l) : f.Alike f' := by
  have hmetrics : w.display.metrics = w'.display.metrics := congrArg (·.display.metrics) h
  rw [hf.face, hf'.face, hmetrics]
  exact ⟨rfl, rfl, rfl⟩

/-- Two drawings side by side: the style of texts, what was shown before, and the letterings and fonts that may be
used. -/
structure Scene where
  style : TextStyle
  scale : Float
  before : List Shown
  allowed : Lettering → Prop
  hands : List (Font × Font × Lettering) := []

/-- Two windows that differ in their fonts at most. -/
structure Like (c : Scene) (w w' : Window) : Prop where
  bare : w.bare = w'.bare
  style : w.textStyle = c.style
  scale : w.scale = c.scale
  shown : ∃ new, w.gallery.shown = c.before ++ new ∧ w'.gallery.shown = c.before ++ new ∧
    ∀ x ∈ new, x.Within c.allowed
  hands : ∀ x ∈ c.hands, w.Has x.1 x.2.2 ∧ w'.Has x.2.1 x.2.2
  cache : w.Caches c.style c.scale
  cache' : w'.Caches c.style c.scale

namespace Like

variable {c : Scene} {w w' w₁ w₁' : Window}

theorem onward (h : Like c w w') (ho : w.Onward w₁) (ho' : w'.Onward w₁') (hbare : w₁.bare = w₁'.bare)
    (hshown : ∃ new, w₁.gallery.shown = w.gallery.shown ++ new ∧ w₁'.gallery.shown = w'.gallery.shown ++ new ∧
      ∀ x ∈ new, x.Within c.allowed) (hcache : w₁.Caches c.style c.scale)
    (hcache' : w₁'.Caches c.style c.scale) : Like c w₁ w₁' where
  bare := hbare
  style := ho.style.trans h.style
  scale := ho.scale.trans h.scale
  shown := by
    obtain ⟨old, hw, hw', hold⟩ := h.shown
    obtain ⟨new, hw₁, hw₁', hnew⟩ := hshown
    refine ⟨old ++ new, ?_, ?_, fun x hx => (List.mem_append.mp hx).elim (hold x) (hnew x)⟩
    · rw [hw₁, hw, List.append_assoc]
    · rw [hw₁', hw', List.append_assoc]
  hands x hx := ⟨(h.hands x hx).1.onward ho, (h.hands x hx).2.onward ho'⟩
  cache := hcache
  cache' := hcache'

theorem take (h : Like c w w') {f f' : Font} {l : Lettering} (hf : w.Has f l) (hf' : w'.Has f' l) :
    Like { c with hands := (f, f', l) :: c.hands } w w' where
  bare := h.bare
  style := h.style
  scale := h.scale
  shown := h.shown
  hands x hx := by
    rcases List.mem_cons.mp hx with rfl | hx
    · exact ⟨hf, hf'⟩
    · exact h.hands x hx
  cache := h.cache
  cache' := h.cache'

theorem drop {x : Font × Font × Lettering} (h : Like { c with hands := x :: c.hands } w w') : Like c w w' :=
  ⟨h.bare, h.style, h.scale, h.shown, fun y hy => h.hands y (List.mem_cons_of_mem _ hy), h.cache, h.cache'⟩

end Like

/-! ## Rules -/

/-- The works `act` and `act'`, at two windows that differ in their fonts at most, give the same and show the same. -/
def Twin {α : Type} (c : Scene) (act act' : Draw α) : Prop :=
  ∀ w w' : Window, Like c w w' → (act.run.run w).1 = (act'.run.run w').1 ∧
    Like c (act.run.run w).2 (act'.run.run w').2

/-- The same work at both. -/
abbrev Even {α : Type} (c : Scene) (act : Draw α) : Prop := Twin c act act

theorem Like.changed {c : Scene} {w w' : Window} {f : Window → Window} (hw : Like c w w')
    (hbare : ∀ w, (f w).bare = (f w.bare).bare) (htexts : ∀ w, (f w).texts = w.texts) : Like c (f w) (f w') := by
  have hsame : (f w).bare = (f w').bare := by rw [hbare w, hbare w', hw.bare]
  have hfont : ∀ w, (f w).font = w.font := fun w => congrArg Texts.font (htexts w)
  have honward := onward_of_texts (htexts w)
  have honward' := onward_of_texts (htexts w')
  have hshown : ∀ w, (f w).gallery.shown = w.gallery.shown ++ [] :=
    fun w => (congrArg Gallery.shown (gallery_of_texts (htexts w))).trans (List.append_nil _).symm
  exact hw.onward honward honward' hsame ⟨[], hshown w, hshown w', List.forall_mem_nil _⟩
    (hw.cache.onward honward (hfont w)) (hw.cache'.onward honward' (hfont w'))

theorem Like.seen {α : Type} {c : Scene} {w w' : Window} {see : Display → α × Display} (hsee : Display.Apart see)
    (hw : Like c w w') : (see w.display).1 = (see w'.display).1 ∧
      Like c (w.mapDisplay fun _ => (see w.display).2) (w'.mapDisplay fun _ => (see w'.display).2) := by
  constructor
  · have hbare : ∀ w : Window, (see w.bare.display).1 = (see w.display).1 := by
      intro w
      have hcleared := congrArg Prod.fst (hsee.calls w.display 0 #[])
      exact hcleared
    rw [← hbare w, ← hbare w', hw.bare]
  · have hsame : ∀ d : Display, (see d).2 = { (see d).2 with fonts := d.fonts, calls := d.calls } :=
      fun d => congrArg Prod.snd (hsee.calls d d.fonts d.calls)
    refine hw.changed (f := mapDisplay fun d => (see d).2) (fun w => ?_) fun w => ?_
    · have hcleared := congrArg Prod.snd (hsee.calls w.display 0 #[])
      exact (congrArg (fun d => (w.mapDisplay fun _ => d).bare) hcleared).symm
    · have htexts : ∀ d : Display, d.metrics = w.display.metrics →
          (w.mapDisplay fun _ => { d with fonts := w.display.fonts, calls := w.display.calls }).texts = w.texts := by
        intro d hd
        change Texts.mk _ _ _ d.metrics _ _ = _
        rw [hd]
        rfl
      refine Eq.trans ?_ (htexts _ (hsee.metrics w.display))
      exact congrArg (fun d => (w.mapDisplay fun _ => d).texts) (hsame w.display)

namespace Twin

variable {α β : Type} {c : Scene} {act act' : Draw α}

theorem pure (a : α) : Even c (Pure.pure a : Draw α) := fun _ _ h => ⟨rfl, h⟩

theorem lift (x : Except Failure α) : Even c (liftM x : Draw α) := fun _ _ h => ⟨rfl, h⟩

theorem throw (f : Failure) : Even c (MonadExcept.throw f : Draw α) := fun _ _ h => ⟨rfl, h⟩

theorem inRange (x : Except NumberFault α) : Even c (Window.inRange x) := lift _

theorem bind {k k' : α → Draw β} (h : Twin c act act') (hk : ∀ a, Twin c (k a) (k' a)) :
    Twin c (act >>= k) (act' >>= k') := by
  intro w w' hw
  obtain ⟨hresult, hlike⟩ := h w w' hw
  rw [run_bind, run_bind]
  generalize act.run.run w = x at hresult hlike
  generalize act'.run.run w' = y at hresult hlike
  obtain ⟨r, w₁⟩ := x
  obtain ⟨_ | a, w₁'⟩ := y <;> obtain rfl : r = _ := hresult
  · exact ⟨rfl, hlike⟩
  · exact hk a w₁ w₁' hlike

/-- Work that looks at the window, but not at its fonts. -/
theorem look {k k' : Window → Draw α} (hbare : ∀ w, k w = k w.bare) (hbare' : ∀ w, k' w = k' w.bare)
    (hk : ∀ w, Twin c (k w) (k' w)) : Twin c (get >>= k) (get >>= k') := by
  intro w w' hw
  rw [run_get_bind, run_get_bind, hbare w, hbare' w', ← hw.bare]
  exact hk w.bare w w' hw

theorem glance {k : Window → Draw α} (hbare : ∀ w, k w = k w.bare) (hk : ∀ w, Even c (k w)) : Even c (get >>= k) :=
  look hbare hbare hk

theorem modify {f : Window → Window} (hbare : ∀ w, (f w).bare = (f w.bare).bare) (htexts : ∀ w, (f w).texts = w.texts) :
    Even c (modify f : Draw Unit) :=
  fun _ _ hw => ⟨rfl, hw.changed hbare htexts⟩

theorem forM {xs : List α} {f f' : α → Draw Unit} (hf : ∀ x ∈ xs, Twin c (f x) (f' x)) :
    Twin c (xs.forM f) (xs.forM f') := by
  induction xs with
  | nil => exact pure ()
  | cons x xs ih =>
    exact bind (hf x List.mem_cons_self) fun _ => ih fun x' hx' => hf x' (List.mem_cons_of_mem _ hx')

end Twin

/-! ## Surfaces and fonts -/

theorem Like.pushed {c : Scene} {w w' : Window} (hw : Like c w w') {call call' : Call} {x : Shown}
    (hfonts : ∀ g : Gallery, (g.after call).fonts = g.fonts) (hfonts' : ∀ g : Gallery, (g.after call').fonts = g.fonts)
    (hshown : (w.gallery.after call).shown = w.gallery.shown ++ [x])
    (hshown' : (w'.gallery.after call').shown = w'.gallery.shown ++ [x]) (hx : x.Within c.allowed) :
    Like c (w.mapDisplay (·.push call)) (w'.mapDisplay (·.push call')) := by
  have honward := w.onward_push hfonts
  have honward' := w'.onward_push hfonts'
  have hbare : (w.mapDisplay (·.push call)).bare = (w'.mapDisplay (·.push call')).bare := by
    rw [bare_push, bare_push, hw.bare]
  rw [← gallery_push] at hshown hshown'
  exact hw.onward honward honward' hbare ⟨[x], hshown, hshown', List.forall_mem_singleton.mpr hx⟩
    (hw.cache.onward honward rfl) (hw.cache'.onward honward' rfl)

namespace Twin

variable {α : Type} {c : Scene}

theorem emit {call : Call} (hcall : call.plain = true) : Even c (Window.emit call) := by
  intro w w' hw
  have hfonts := fun g : Gallery => g.fonts_after hcall
  rw [run_emit, run_emit]
  exact ⟨rfl, hw.pushed hfonts hfonts (w.gallery.shown_after hcall) (w'.gallery.shown_after hcall) trivial⟩

theorem number (width height : Int) : Even c (Window.number width height) :=
  glance (fun _ => rfl) fun _ => bind (modify (fun _ => rfl) fun _ => rfl) fun _ => pure _

theorem newSurface (width height : Int) (alpha : Bool) :
    Even c (Window.newSurface width height alpha) :=
  bind (number _ _) fun _ => bind (emit rfl) fun _ => pure _

theorem newFont {name : Value} {height : Int} {bold italic : Bool} {k k' : Font → Draw α}
    (hk : ∀ f f' : Font, f.Alike f' →
      Twin { c with hands := (f, f', ⟨⟨name, height, bold, italic⟩, false⟩) :: c.hands } (k f) (k' f')) :
    Twin c (Window.newFont name height bold italic >>= k) (Window.newFont name height bold italic >>= k') := by
  intro w w' hw
  obtain ⟨face, hface⟩ : ∃ face : Typeface, face = ⟨name, height, bold, italic⟩ := ⟨_, rfl⟩
  rw [run_bind, run_bind, run_newFont, run_newFont, ← hface]
  rw [← hface] at hk
  have hmetrics : w.display.metrics = w'.display.metrics := congrArg (·.display.metrics) hw.bare
  have halike : (w.display.metrics.font (w.display.fonts + 1) face).Alike
      (w'.display.metrics.font (w'.display.fonts + 1) face) := by
    rw [hmetrics]
    exact ⟨rfl, rfl, rfl⟩
  have hbare : (w.withFont face).bare = (w'.withFont face).bare := by rw [bare_withFont, bare_withFont, hw.bare]
  have hshown : ∀ w : Window, (w.withFont face).gallery.shown = w.gallery.shown ++ [] := by
    intro w
    rw [gallery_withFont, List.append_nil]
    rfl
  have hlike := hw.onward (onward_withFont face w) (onward_withFont face w') hbare
    ⟨[], hshown w, hshown w', List.forall_mem_nil _⟩
    (hw.cache.onward (onward_withFont face w) rfl) (hw.cache'.onward (onward_withFont face w') rfl)
  obtain ⟨hresult, hlike⟩ := hk _ _ halike _ _ (hlike.take (has_withFont face w) (has_withFont face w'))
  exact ⟨hresult, hlike.drop⟩

theorem measurable (text : Value) : Even c (Window.measurable text) := by
  unfold Window.measurable
  split
  · exact throw _
  · exact pure ()

theorem emitText {f f' : Font} {l : Lettering} (hf : (f, f', l) ∈ c.hands) (hl : c.allowed l) (surface : Nat)
    (text : Value) (colour : Colour) (background : Option Colour) :
    Twin c (Window.emit (.render surface f.id text colour background))
      (Window.emit (.render surface f'.id text colour background)) := by
  intro w w' hw
  obtain ⟨hhas, hhas'⟩ := hw.hands _ hf
  have hshown : ∀ {w : Window} {f : Font}, w.Has f l →
      (w.gallery.after (.render surface f.id text colour background)).shown =
        w.gallery.shown ++ [.text surface (some l) text colour background] := by
    intro w f hhas
    rw [← hhas.letters]
    rfl
  rw [run_emit, run_emit]
  exact ⟨rfl, hw.pushed (fun _ => rfl) (fun _ => rfl) (hshown hhas) (hshown hhas') ⟨l, rfl, hl⟩⟩

theorem render {f f' : Font} {l : Lettering} (hff : f.Alike f') (hf : (f, f', l) ∈ c.hands) (hl : c.allowed l)
    (text : Value) (colour : Colour) (background : Option Colour) :
    Twin c (Window.render f text colour background) (Window.render f' text colour background) := by
  unfold Window.render
  rw [hff.widthOf, hff.height]
  exact bind (measurable text) fun _ => bind (number _ _) fun s => bind (emitText hf hl _ _ _ _) fun _ => pure _

theorem note (r : Record) : Even c (Window.note r) := modify (fun _ => rfl) fun _ => rfl

theorem fitFrame : Even c Window.fitFrame :=
  glance (fun _ => rfl) fun _ => bind (emit rfl) fun _ => modify (fun _ => rfl) fun _ => rfl

theorem resize (size : Int × Int) : Even c (Window.resize size) := by
  refine bind (modify (fun _ => rfl) fun _ => rfl) fun _ => bind (newSurface _ _ _) fun canvas => ?_
  refine glance (fun _ => rfl) fun w => bind (emit rfl) fun _ => bind (emit rfl) fun _ => ?_
  exact bind (modify (fun _ => rfl) fun _ => rfl) fun _ => fitFrame

/-! ## The menu bar -/

theorem headers : Even c Window.headers := by
  refine newFont fun f f' hff => look (fun _ => rfl) (fun _ => rfl) fun w => ?_
  rw [headerRects_congr hff.widthOf]
  exact bind (forM fun p _ => measurable _) fun _ => pure _

theorem popupRects (index : Nat) : Even c (Window.popupRects index) := by
  refine newFont fun f f' hff => bind headers fun rects => look (fun _ => rfl) (fun _ => rfl) fun w => ?_
  split
  · rw [memberRects_congr hff.widthOf]
    refine bind (forM fun m _ => ?_) fun _ => pure _
    cases m with
    | none => exact pure ()
    | some item => exact measurable _
  · exact throw _

section

variable (hall : ∀ l, c.allowed l)

include hall

theorem drawMenuBar : Even c Window.drawMenuBar := by
  refine newFont fun f f' hff => bind headers fun rects => look (fun _ => rfl) (fun _ => rfl) fun w => ?_
  refine bind (forM fun entry _ => ?_) fun _ => emit rfl
  exact bind (render hff List.mem_cons_self (by exact hall _) _ _ _) fun s => emit rfl

theorem drawPopup (index : Nat) : Even c (Window.drawPopup index) := by
  refine newFont fun f f' hff => bind (popupRects index) fun members => ?_
  split
  · exact pure ()
  · refine bind (emit rfl) fun _ => bind (emit rfl) fun _ => forM fun entry _ => ?_
    obtain ⟨_ | item, rect⟩ := entry
    · exact emit rfl
    · exact bind (render hff List.mem_cons_self (by exact hall _) _ _ _) fun s => emit rfl

theorem refresh : Even c Window.refresh := by
  refine bind (emit rfl) fun _ => glance (fun _ => rfl) fun w => bind (emit rfl) fun _ => ?_
  have hpopup : ∀ index, Even c (do
      Window.drawPopup index
      Window.emit .flip) := fun index => bind (drawPopup hall index) fun _ => emit rfl
  dsimp only
  split
  · refine bind (drawMenuBar hall) fun _ => ?_
    split
    · exact hpopup _
    · exact emit rfl
  · split
    · exact hpopup _
    · exact emit rfl

end

/-! ## The canvas -/

theorem pixels (v : Value) : Even c (Window.pixels v) :=
  bind (lift _) fun _ => glance (fun _ => rfl) fun _ => inRange _

theorem pointAt (x y : Value) : Even c (Window.pointAt x y) :=
  bind (pixels x) fun _ => bind (pixels y) fun _ => pure _

theorem hatchTile : Even c Window.hatchTile := by
  refine bind (newSurface _ _ _) fun tile => glance (fun _ => rfl) fun w => bind (emit rfl) fun _ => ?_
  exact bind (lift _) fun lines => bind (forM fun _ _ => emit rfl) fun _ => pure _

theorem brushSurface (width height : Int) : Even c (Window.brushSurface width height) := by
  refine bind (newSurface _ _ _) fun surface => glance (fun _ => rfl) fun w => ?_
  dsimp only
  split
  · exact bind (emit rfl) fun _ => pure _
  · exact bind hatchTile fun tile => bind (forM fun x _ => forM fun y _ => emit rfl) fun _ => pure _

theorem paintThrough (stencil : Surface) (corner : Pixel) :
    Even c (Window.paintThrough stencil corner) := by
  refine glance (fun _ => rfl) fun w => ?_
  split
  · exact bind (brushSurface _ _) fun fill => bind (emit rfl) fun _ => emit rfl
  · exact pure ()

theorem fillShape (points : List Point) : Even c (Window.fillShape points) := by
  refine glance (fun _ => rfl) fun w => ?_
  split
  · dsimp only
    split
    · refine bind (inRange _) fun left => bind (inRange _) fun top => bind (inRange _) fun right => ?_
      refine bind (inRange _) fun bottom => bind (newSurface _ _ _) fun stencil => bind (emit rfl) fun _ => ?_
      refine bind (inRange _) fun dx => bind (inRange _) fun dy => bind (emit rfl) fun _ => ?_
      exact paintThrough _ _
    · exact pure ()
  · exact pure ()

theorem stroke (points : List Point) : Even c (Window.stroke points) := by
  refine glance (fun _ => rfl) fun w => ?_
  have hdashes : ∀ width : Int, Even c (if w.pen.style ≠ .text "NULL" then do
      let pattern ← optionOf Outline.penDashes w.pen.style
      (Outline.dashes points pattern).forM fun segment =>
        if 1 < segment.length then Window.emit (.lines w.canvas.id w.pen.colour segment width) else return ()
      else return ()) := by
    intro width
    split
    · refine bind (lift _) fun pattern => forM fun segment _ => ?_
      split
      · exact emit rfl
      · exact pure ()
    · exact pure ()
  dsimp only
  split
  · split
    · exact bind (emit rfl) fun _ => hdashes _
    · exact hdashes _
  · exact pure ()

theorem shape (points : List Point) : Even c (Window.shape points) :=
  bind (fillShape points) fun _ => stroke points

theorem flood (x y r g b : Value) : Even c (Window.flood x y r g b) := by
  refine bind (pointAt x y) fun place => bind (inRange _) fun px => bind (inRange _) fun py => ?_
  refine glance (fun _ => rfl) fun w => ?_
  dsimp only
  split
  · refine bind (lift _) fun border => bind (emit rfl) fun _ => bind (emit rfl) fun _ => bind (emit rfl) fun _ => ?_
    split
    · refine bind (emit rfl) fun _ => bind (number _ _) fun stencil => bind (emit rfl) fun _ => ?_
      exact paintThrough _ _
    · exact pure ()
  · exact pure ()

theorem loadImage (file : Value) : Even c (Window.loadImage file) := by
  refine glance (fun _ => rfl) fun w => ?_
  split
  · exact throw _
  · exact bind (number _ _) fun s => bind (emit rfl) fun _ => pure _

theorem bitmap (x y file : Value) : Even c (Window.bitmap x y file) :=
  bind (loadImage file) fun _ => bind (pointAt x y) fun _ => glance (fun _ => rfl) fun _ => emit rfl

theorem sizedBitmap (x1 y1 x2 y2 file : Value) :
    Even c (Window.sizedBitmap x1 y1 x2 y2 file) := by
  refine bind (pointAt x1 y1) fun a => bind (pointAt x2 y2) fun b => ?_
  refine bind (inRange _) fun width => bind (inRange _) fun height => ?_
  split
  · refine bind (loadImage file) fun image => bind (number _ _) fun large => bind (emit rfl) fun _ => ?_
    exact bind (number _ _) fun final => bind (emit rfl) fun _ => glance (fun _ => rfl) fun _ => emit rfl
  · exact pure ()

theorem beep : Even c Window.beep := by
  refine glance (fun _ => rfl) fun w => ?_
  dsimp only
  split
  · exact note _
  · exact bind (inRange _) fun _ => emit rfl
  · refine bind (emit rfl) fun _ => bind (modify (fun _ => rfl) fun _ => rfl) fun _ => ?_
    exact bind (inRange _) fun _ => emit rfl

end Twin

namespace Twin

variable {α : Type} {c : Scene}

theorem textFont {k k' : Font → Draw α} (hk : ∀ (f f' : Font) (l : Lettering), f.Alike f' →
      c.style.lettering c.scale = .ok l → Twin { c with hands := (f, f', l) :: c.hands } (k f) (k' f')) :
    Twin c (Window.textFont >>= k) (Window.textFont >>= k') := by
  intro w w' hw
  have hstyle' : w'.textStyle = c.style := (congrArg Window.textStyle hw.bare).symm.trans hw.style
  have hscale' : w'.scale = c.scale := (congrArg Window.scale hw.bare).symm.trans hw.scale
  rw [run_bind, run_bind]
  cases hheight : c.style.pixelHeight c.scale with
  | error e =>
    rw [textFont_error hw.style hw.scale hw.cache hheight, textFont_error hstyle' hscale' hw.cache' hheight]
    exact ⟨rfl, hw⟩
  | ok height =>
    obtain ⟨l, hl⟩ : ∃ l, c.style.lettering c.scale = .ok l := ⟨_, TextStyle.lettering_eq_ok.mpr ⟨height, hheight, rfl⟩⟩
    obtain ⟨f, w₁, hrun, honward, hbare, hshown, hhas, hfont⟩ := textFont_ok hw.style hw.scale hw.cache hl
    obtain ⟨f', w₁', hrun', honward', hbare', hshown', hhas', hfont'⟩ := textFont_ok hstyle' hscale' hw.cache' hl
    have hsame : w₁.bare = w₁'.bare := by rw [hbare, hbare', hw.bare]
    -- The font in the cache is the one that was just handed out.
    have hcache : ∀ {w : Window} {f : Font}, w.font = some f → w.Has f l → w.Caches c.style c.scale := by
      intro w f hfont hhas g hg
      obtain rfl := Option.some.inj (hfont.symm.trans hg)
      exact ⟨_, hl, hhas⟩
    have hlike : Like c w₁ w₁' := hw.onward honward honward' hsame
      ⟨[], by rw [hshown, List.append_nil], by rw [hshown', List.append_nil], List.forall_mem_nil _⟩
      (hcache hfont hhas) (hcache hfont' hhas')
    rw [hrun, hrun']
    obtain ⟨hresult, hlike⟩ := hk f f' _ (hhas.alike hsame hhas') hl w₁ w₁' (hlike.take hhas hhas')
    exact ⟨hresult, hlike.drop⟩

theorem spacedText {f f' : Font} {l : Lettering} (hff : f.Alike f') (hf : (f, f', l) ∈ c.hands) (hl : c.allowed l)
    (text : Value) (background : Option Colour) :
    Twin c (Window.spacedText f text background) (Window.spacedText f' text background) := by
  refine look (fun _ => rfl) (fun _ => rfl) fun w => bind (inRange _) fun width => bind (inRange _) fun step => ?_
  rw [hff.lineHeight]
  refine bind (measurable text) fun _ => bind (newSurface _ _ _) fun s => bind (emit rfl) fun _ => ?_
  refine bind (forM fun part _ => ?_) fun _ => pure _
  exact bind (render hff hf hl _ _ _) fun glyph => emit rfl

/-- Texts of the program are shown in the lettering that the style asks for. -/
theorem drawText (hallowed : ∀ l, c.style.lettering c.scale = .ok l → c.allowed l) (x y text : Value) :
    Even c (Window.drawText x y text) := by
  refine textFont fun f f' l hff hl => look (fun _ => rfl) (fun _ => rfl) fun w => ?_
  dsimp only
  split
  · refine bind (render hff List.mem_cons_self (by exact hallowed l hl) _ _ _) fun s => ?_
    exact bind (pointAt x y) fun _ => emit rfl
  · refine bind (spacedText hff List.mem_cons_self (by exact hallowed l hl) _ _) fun s => ?_
    exact bind (pointAt x y) fun _ => emit rfl

/-! ## Events and message boxes -/

theorem nextEvent (timeout : Int) : Even c (Window.nextEvent timeout) := by
  refine bind (emit rfl) fun _ => ?_
  intro w w' hw
  obtain ⟨hsame, hlike⟩ := hw.seen Display.takeEvent_apart
  rw [run_get_bind, run_get_bind]
  generalize w.display.takeEvent = x at hsame hlike
  generalize w'.display.takeEvent = x' at hsame hlike
  obtain ⟨o, d⟩ := x
  obtain ⟨o', d'⟩ := x'
  obtain rfl : o = o' := hsame
  cases o with
  | some e => exact ⟨rfl, hlike⟩
  | none =>
    dsimp only
    split
    · exact pure _ w w' hw
    · refine bind (inRange _) (fun ms => ?_) w w' hw
      exact bind (modify (fun _ => rfl) fun _ => rfl) fun _ => pure _

theorem postEvent (e : DisplayEvent) : Even c (Window.postEvent e) :=
  bind (emit rfl) fun _ => modify (fun _ => rfl) fun _ => rfl

theorem answered {x : Except Failure (Option Int)} {act : Draw Int} (h : Even c act) : Even c (do
    match ← x with
    | some n => return n
    | none => act : Draw Int) := by
  refine bind (lift _) fun answer => ?_
  cases answer with
  | none => exact h
  | some n => exact pure n

theorem awaitAnswer (buttons : List Rect) (chosen : Int) (fuel : Nat) :
    Even c (Window.awaitAnswer buttons chosen fuel) := by
  induction fuel with
  | zero => exact pure _
  | succ fuel ih =>
    refine bind (nextEvent 0) fun e => ?_
    dsimp only
    split
    · exact bind (postEvent e) fun _ => answered ih
    · exact answered ih

theorem waitLimit : Even c Window.waitLimit := by
  intro w w' hw
  have hremaining : w'.panel.remaining = w.panel.remaining := (congrArg (·.panel.remaining) hw.bare).symm
  have hmode : w'.panel.waitMode = w.panel.waitMode := (congrArg (·.panel.waitMode) hw.bare).symm
  obtain ⟨hsame, hlike⟩ := hw.seen Display.hasFocus_apart
  unfold Window.waitLimit
  rw [run_get_bind, run_get_bind, hremaining, hmode, run_bind, run_bind]
  rcases w.panel.remaining with _ | _ | ms
  · exact ⟨rfl, hw⟩
  · exact ⟨rfl, hw⟩
  · by_cases hfocus : w.panel.waitMode = .text "FOCUS"
    · simp only [hfocus, if_true]
      rw [← hsame]
      exact ⟨rfl, hlike⟩
    · simp only [hfocus, if_false]
      exact ⟨rfl, hw⟩

section

variable (hall : ∀ l, c.allowed l)

include hall

theorem drawDialog {f f' : Font} {l : Lettering} (hff : f.Alike f') (hf : (f, f', l) ∈ c.hands) (layout : DialogLayout)
    (labels : List String) (message caption : Value) (chosen : Int) :
    Twin c (Window.drawDialog f layout labels message caption chosen)
      (Window.drawDialog f' layout labels message caption chosen) := by
  have hrender := fun text colour background => render hff hf (hall l) text colour background
  refine bind (emit rfl) fun _ => bind (emit rfl) fun _ => bind (emit rfl) fun _ => ?_
  refine bind (hrender _ _ _) fun s => bind (emit rfl) fun _ => bind (hrender _ _ _) fun s => bind (emit rfl) fun _ => ?_
  refine bind (forM fun entry _ => ?_) fun _ => emit rfl
  exact bind (emit rfl) fun _ => bind (emit rfl) fun _ => bind (hrender _ _ _) fun s => emit rfl

theorem settleDialog (buttons : List Rect) (chosen : Int) : Even c (Window.settleDialog buttons chosen) :=
  glance (fun _ => rfl) fun _ => bind (awaitAnswer _ _ _) fun _ => bind (refresh hall) fun _ => pure _

theorem messageBox (type default icon text caption : Value) :
    Even c (Window.messageBox type default icon text caption) := by
  refine bind (lift _) fun choice => newFont fun f f' hff => bind (lift _) fun mark => ?_
  refine bind (measurable _) fun _ => bind (measurable _) fun _ => look (fun _ => rfl) (fun _ => rfl) fun w => ?_
  refine bind (lift _) fun window => ?_
  rw [hff.dialogLayout]
  refine bind (refresh (by exact hall)) fun _ => ?_
  refine bind (drawDialog (by exact hall) hff List.mem_cons_self _ _ _ _ _) fun _ => ?_
  exact settleDialog (by exact hall) _ _

/-! ## Waits -/

theorem barClick (p : Pixel) (menu : Menu) : Even c (Window.barClick p menu) := by
  refine bind headers fun rects => bind ?_ fun found => ?_
  · generalize (menu.zip rects).zipIdx.map _ = entries
    induction entries with
    | nil => exact pure _
    | cons x entries ih =>
      refine bind (lift _) fun hits => ?_
      dsimp only
      split
      · split
        · exact pure _
        · exact bind (modify (fun _ => rfl) fun _ => rfl) fun _ => ih
      · exact ih
  · cases found with
    | some e => exact pure _
    | none => exact bind (refresh hall) fun _ => pure _

theorem menuClick (p : Pixel) : Even c (Window.menuClick p) := by
  refine glance (fun _ => rfl) fun w => ?_
  split
  · refine bind (modify (fun _ => rfl) fun _ => rfl) fun _ => ?_
    dsimp only
    split
    · exact throw _
    · refine bind (popupRects _) fun members => bind (lift _) fun found => ?_
      cases found with
      | none => exact barClick hall p _
      | some item => exact bind (refresh hall) fun _ => pure _
  · exact barClick hall p _

theorem eventOf (e : DisplayEvent) : Even c (Window.eventOf e) := by
  refine glance (fun _ => rfl) fun w => ?_
  have hrefresh : Even c (do
      Window.refresh
      return (none : Option Event)) := bind (refresh hall) fun _ => pure none
  cases e with
  | quit => exact pure _
  | other => exact pure _
  | exposed => exact hrefresh
  | resize width height => exact bind (resize _) fun _ => hrefresh
  | click p button =>
    dsimp only
    split
    · exact menuClick hall p
    · exact inRange _
  | key code modifiers typed =>
    dsimp only
    split
    · exact bind (modify (fun _ => rfl) fun _ => rfl) fun _ => hrefresh
    · exact pure _

theorem round : Even c Window.round := by
  refine bind waitLimit fun limit => ?_
  cases limit with
  | none => exact pure _
  | some ms => exact bind (nextEvent ms) fun e => eventOf hall e

theorem await (fuel : Nat) : Even c (Window.await fuel) := by
  induction fuel with
  | zero => exact pure _
  | succ fuel ih =>
    refine bind (round hall) fun found => ?_
    cases found with
    | none => exact ih
    | some e => exact pure _

theorem waitEvent : Even c Window.waitEvent := by
  refine bind (refresh hall) fun _ => bind (modify (fun _ => rfl) fun _ => rfl) fun _ => ?_
  exact glance (fun _ => rfl) fun w => await hall _

end

/-! ## Instructions -/

theorem setWindow (option : Value) : Even c (Window.setWindow option) := by
  refine glance (fun _ => rfl) fun w => ?_
  split
  · exact emit rfl
  · split <;> exact resize _

theorem useBackground (option r g b : Value) : Even c (Window.useBackground option r g b) :=
  bind (modify (fun _ => rfl) fun _ => rfl) fun _ => bind (lift _) fun _ => modify (fun _ => rfl) fun _ => rfl

theorem useBrush (style r g b : Value) : Even c (Window.useBrush style r g b) :=
  bind (modify (fun _ => rfl) fun _ => rfl) fun _ => bind (lift _) fun _ => modify (fun _ => rfl) fun _ => rfl

theorem usePen (style width r g b : Value) : Even c (Window.usePen style width r g b) := by
  refine bind (modify (fun _ => rfl) fun _ => rfl) fun _ => bind (lift _) fun _ => ?_
  exact bind (modify (fun _ => rfl) fun _ => rfl) fun _ => bind (lift _) fun _ => modify (fun _ => rfl) fun _ => rfl

theorem useCaption (text : Value) : Even c (Window.useCaption text) :=
  bind (modify (fun _ => rfl) fun _ => rfl) fun _ => emit rfl

theorem arcOf (x1 y1 x2 y2 x3 y3 x4 y4 : Value) : Even c (Window.arcOf x1 y1 x2 y2 x3 y3 x4 y4) := by
  refine bind (pixels _) fun _ => bind (pixels _) fun _ => bind (pixels _) fun _ => bind (pixels _) fun _ => ?_
  refine bind (pixels _) fun _ => bind (pixels _) fun _ => bind (pixels _) fun _ => bind (pixels _) fun _ => ?_
  exact pure _

theorem viaPanel (i : Instruction) : Even c (Window.viaPanel i) := by
  intro w w' hw
  rw [run_viaPanel, run_viaPanel]
  have hcleared := fun w : Window => w.panel.carryOut_mapDisplay (fun d => { d with fonts := 0, calls := #[] }) i
  constructor
  · have hbare : ∀ w : Window, (w.bare.panel.carryOut i).1 = (w.panel.carryOut i).1 := by
      intro w
      have hresult := congrArg Prod.fst (hcleared w)
      exact hresult
    rw [← hbare w, ← hbare w', hw.bare]
  · refine hw.changed (f := fun w => { w with panel := (w.panel.carryOut i).2 }) (fun w => ?_) fun w => ?_
    · have hpanel := congrArg Prod.snd (hcleared w)
      exact (congrArg (fun panel : Panel => Window.bare { w with panel }) hpanel).symm
    · have hdisplay := w.panel.carryOut_display i
      exact congrArg (fun d : Display => (w.mapDisplay fun _ => d).texts) hdisplay

theorem showMenu (menu : Menu) : Even c (Window.showMenu menu) := by
  refine glance (fun _ => rfl) fun w => bind (modify (fun _ => rfl) fun _ => rfl) fun _ => ?_
  split
  · exact fitFrame
  · exact pure ()

end Twin

end Window

end GraphicsBatch
