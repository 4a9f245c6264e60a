import GraphicsBatch.Proofs.Twins
import GraphicsBatch.Proofs.Underway

/-!
# The font that is kept

A window keeps the font of its text style until the style or the scale changes. Beside a window that makes the font anew
for each text it shows the same, in the lettering that was asked for last.
-/

namespace GraphicsBatch

/-- Instructions that draw texts of the program. -/
def Instruction.writes : Instruction → Bool
  | .text .. | .number .. => true
  | _ => false

/-- The text that an instruction draws. -/
def Instruction.text? : Instruction → Option Value
  | .text _ _ s => some s
  | .number _ _ n => n.numberText.toOption.map Value.text
  | _ => none

/-- Instructions that change how texts look. -/
def Instruction.letters : Instruction → Bool
  | .font .. | .coordinates _ => true
  | _ => false

/-- The text style that an instruction chooses. -/
def Instruction.textStyle? : Instruction → Option TextStyle
  | .font name (.int width) (.int height) weight slant underline (.int r) (.int g) (.int b) => some {
      name
      width := max 0 width
      height := max 0 height
      bold := weight = .text "BOLD"
      italic := slant = .text "ITALIC"
      underline := underline = .text "UNDERLINE"
      colour := .clip r g b }
  | _ => none

/-- The scale that an instruction chooses. -/
def Instruction.scale? : Instruction → Option Float
  | .coordinates system => some (Outline.programScale system)
  | _ => none

theorem Instruction.choices_of_letters {i : Instruction} (h : i.letters = false) :
    i.textStyle? = none ∧ i.scale? = none := by
  cases i <;> first | exact ⟨rfl, rfl⟩ | cases h

theorem Instruction.of_font {c : Command} {args : List Value} {name width height weight slant underline r g b : Value}
    (h : ofCall? c args = some (.font name width height weight slant underline r g b)) : c = .useFont := by
  unfold ofCall? ofBare? at h
  generalize args.map Value.bare = vs at h
  split at h <;> first | rfl | cases h

/-- Where a font is chosen, the places of numbers hold numbers. -/
def Instruction.Accepted : Instruction → Prop
  | .font _ width height _ _ _ r g b => ∀ v ∈ [width, height, r, g, b], ∃ n, v = .int n
  | _ => True

namespace Window

namespace Twin

variable {c : Scene}

theorem writing {i : Instruction} (hi : i.writes = true)
    (hallowed : ∀ l, c.style.lettering c.scale = .ok l → c.allowed l) : Even c (Window.carryOut i) := by
  cases i with
  | text x y s => exact bind (drawText hallowed x y s) fun _ => pure _
  | number x y n => exact bind (lift _) fun _ => bind (drawText hallowed x y _) fun _ => pure _
  | _ => cases hi

theorem carryOut (hall : ∀ l, c.allowed l) {i : Instruction} (hi : i.letters = false) : Even c (Window.carryOut i) := by
  have hpixels := fun v => pixels (c := c) v
  cases i with
  | beep => exact bind beep fun _ => pure _
  | clear => exact glance (fun _ => rfl) fun _ => bind (emit rfl) fun _ => pure _
  | arc => exact bind (arcOf _ _ _ _ _ _ _ _) fun _ => bind (stroke _) fun _ => pure _
  | chord => exact bind (arcOf _ _ _ _ _ _ _ _) fun _ => bind (shape _) fun _ => pure _
  | pie => exact bind (arcOf _ _ _ _ _ _ _ _) fun _ => bind (shape _) fun _ => pure _
  | ellipse | rectangle =>
    refine bind (hpixels _) fun _ => bind (hpixels _) fun _ => bind (hpixels _) fun _ => bind (hpixels _) fun _ => ?_
    exact bind (shape _) fun _ => pure _
  | roundRectangle =>
    refine bind (hpixels _) fun _ => bind (hpixels _) fun _ => bind (hpixels _) fun _ => bind (hpixels _) fun _ => ?_
    exact bind (hpixels _) fun _ => bind (hpixels _) fun _ => bind (shape _) fun _ => pure _
  | line => exact bind (pointAt _ _) fun _ => bind (pointAt _ _) fun _ => bind (stroke _) fun _ => pure _
  | flood => exact bind (flood _ _ _ _ _) fun _ => pure _
  | bitmap => exact bind (bitmap _ _ _) fun _ => pure _
  | sizedBitmap => exact bind (sizedBitmap _ _ _ _ _) fun _ => pure _
  | number | text => exact writing rfl fun l _ => hall l
  | messageBox => exact bind (messageBox hall _ _ _ _ _) fun _ => pure _
  | setWindow => exact bind (setWindow _) fun _ => pure _
  | background => exact bind (useBackground _ _ _ _) fun _ => pure _
  | brush => exact bind (useBrush _ _ _ _) fun _ => pure _
  | pen => exact bind (usePen _ _ _ _ _) fun _ => pure _
  | caption => exact bind (useCaption _) fun _ => pure _
  | font | coordinates => cases hi
  | run | setKeyboard | setMenu | setMouse | setWaitMode | wait =>
    rw [carryOut_plain rfl]
    exact viaPanel _

end Twin

/-! ## What is done at a window -/

/-- Something is asked of the window, or an event is waited for. -/
inductive Turn where
  | ask (r : Request)
  | wait

inductive Answer where
  | reply (r : Except Signal Datum)
  | event (r : Except Failure (Option Event))

def serve (h : Host Window) (w : Window) : Turn → Answer × Window
  | .ask r => (.reply (h.call r w).1, (h.call r w).2)
  | .wait => (.event (waitEvent.run.run w).1, (waitEvent.run.run w).2)

/-- The window after a row of turns. -/
def served (h : Host Window) (w : Window) (ts : List Turn) : Window := ts.foldl (fun w t => (serve h w t).2) w

theorem served_append (h : Host Window) (w : Window) (ts : List Turn) (t : Turn) :
    served h w (ts ++ [t]) = (serve h (served h w ts) t).2 := by
  simp [served]

/-- The host that keeps no font from one request to the next. -/
def renewing : Host Window := { host with call := fun r w => host.call r { w with font := none } }

namespace Turn

def instruction? : Turn → Option Instruction
  | .ask (.forward c args) => Instruction.ofCall? c args
  | _ => none

def Accepted (t : Turn) : Prop := ∀ i, t.instruction? = some i → i.Accepted

def writes (t : Turn) : Bool := t.instruction?.any Instruction.writes

def text? (t : Turn) : Option Value := t.instruction?.bind Instruction.text?

def textStyle? (t : Turn) : Option TextStyle := t.instruction?.bind Instruction.textStyle?

def scale? (t : Turn) : Option Float := t.instruction?.bind Instruction.scale?

/-- The last choice of a row of turns. -/
def latest {α : Type} (choice? : Turn → Option α) (initial : α) (ts : List Turn) : α :=
  (ts.reverse.findSome? choice?).getD initial

theorem latest_append {α : Type} (choice? : Turn → Option α) (initial : α) (ts : List Turn) (t : Turn) :
    latest choice? initial (ts ++ [t]) = (choice? t).getD (latest choice? initial ts) := by
  unfold latest
  rw [List.reverse_append, List.reverse_singleton, List.singleton_append, List.findSome?_cons]
  cases choice? t <;> rfl

/-- The lettering that the last choices of style and scale ask for. -/
def lettering (ts : List Turn) : Except NumberFault Lettering :=
  (latest textStyle? {} ts).lettering (latest scale? Outline.metricScale ts)

end Turn

namespace Like

variable {c : Scene} {w w' : Window}

/-- The font that is kept makes no difference. -/
theorem forget (hw : Like c w w') : Like c w { w' with font := none } where
  bare := hw.bare
  style := hw.style
  scale := hw.scale
  shown := hw.shown
  hands x hx := ⟨(hw.hands x hx).1, (hw.hands x hx).2.of_display rfl⟩
  cache := hw.cache
  cache' f hf := by cases hf

theorem relettered {f : Window → Window} {style : TextStyle} {scale : Float} (hw : Like c w w')
    (hbare : ∀ w, (f w).bare = (f w.bare).bare) (hdisplay : ∀ w, (f w).display = w.display)
    (hfont : ∀ w, (f w).font = none) (hstyle : (f w).textStyle = style) (hscale : (f w).scale = scale) :
    Like { c with style, scale } (f w) (f w') where
  bare := by rw [hbare w, hbare w', hw.bare]
  style := hstyle
  scale := hscale
  shown := by
    rw [gallery, gallery, hdisplay w, hdisplay w']
    exact hw.shown
  hands x hx := ⟨(hw.hands x hx).1.of_display (hdisplay w), (hw.hands x hx).2.of_display (hdisplay w')⟩
  cache g hg := by cases (hfont w).symm.trans hg
  cache' g hg := by cases (hfont w').symm.trans hg

theorem restyled (hw : Like c w w') (style : TextStyle) : Like { c with style }
    { w with textStyle := style, font := none } { w' with textStyle := style, font := none } :=
  hw.relettered (f := fun w => { w with textStyle := style, font := none }) (fun _ => rfl) (fun _ => rfl) (fun _ => rfl)
    rfl hw.scale

theorem rescaled (hw : Like c w w') (scale : Float) : Like { c with scale }
    { w with scale, font := none } { w' with scale, font := none } :=
  hw.relettered (f := fun w => { w with scale, font := none }) (fun _ => rfl) (fun _ => rfl) (fun _ => rfl) hw.style rfl

theorem shown_eq (hw : Like c w w') : w.gallery.shown = w'.gallery.shown := by
  obtain ⟨new, hnew, hnew', -⟩ := hw.shown
  rw [hnew, hnew']

/-- From here on, other letterings may be used. -/
theorem rebase (hw : Like c w w') (allowed : Lettering → Prop) :
    Like ⟨c.style, c.scale, w.gallery.shown, allowed, []⟩ w w' where
  bare := hw.bare
  style := hw.style
  scale := hw.scale
  shown := ⟨[], (List.append_nil _).symm, by rw [hw.shown_eq, List.append_nil], List.forall_mem_nil _⟩
  hands := List.forall_mem_nil _
  cache := hw.cache
  cache' := hw.cache'

end Like

/-- What a turn leaves of the style and scale of texts. -/
def Scene.after (c : Scene) (t : Turn) : Scene :=
  { c with style := t.textStyle?.getD c.style, scale := t.scale?.getD c.scale }

section

variable {c : Scene} {w w' : Window} {t : Turn} (hw : Like c w w')

include hw

theorem carryOut_letters {i : Instruction} (hi : i.letters = true) (haccepted : i.Accepted) :
    ((carryOut i).run.run w).1 = ((carryOut i).run.run w').1 ∧
      Like { c with style := i.textStyle?.getD c.style, scale := i.scale?.getD c.scale }
        ((carryOut i).run.run w).2 ((carryOut i).run.run w').2 := by
  cases i with
  | font name width height weight slant underline r g b =>
    obtain ⟨width, rfl⟩ := haccepted width (by simp)
    obtain ⟨height, rfl⟩ := haccepted height (by simp)
    obtain ⟨r, rfl⟩ := haccepted r (by simp)
    obtain ⟨g, rfl⟩ := haccepted g (by simp)
    obtain ⟨b, rfl⟩ := haccepted b (by simp)
    exact ⟨rfl, hw.restyled _⟩
  | coordinates system => exact ⟨rfl, hw.rescaled _⟩
  | _ => cases hi

theorem carryOut_like {i : Instruction} (haccepted : i.Accepted)
    (hallowed : ∀ l, (i.writes = true → c.style.lettering c.scale = .ok l) → c.allowed l) :
    ((carryOut i).run.run w).1 = ((carryOut i).run.run w').1 ∧
      Like { c with style := i.textStyle?.getD c.style, scale := i.scale?.getD c.scale }
        ((carryOut i).run.run w).2 ((carryOut i).run.run w').2 := by
  cases hletters : i.letters with
  | true => exact carryOut_letters hw hletters haccepted
  | false =>
    obtain ⟨hstyle, hscale⟩ := Instruction.choices_of_letters hletters
    rw [hstyle, hscale]
    cases hwrites : i.writes with
    | true => exact Twin.writing hwrites (fun l hl => hallowed l fun _ => hl) w w' hw
    | false =>
      refine Twin.carryOut (fun l => hallowed l fun h => ?_) hletters w w' hw
      cases hwrites.symm.trans h

theorem serve_like (haccepted : t.Accepted)
    (hallowed : ∀ l, (t.writes = true → c.style.lettering c.scale = .ok l) → c.allowed l) :
    (serve host w t).1 = (serve host w' t).1 ∧ Like (c.after t) (serve host w t).2 (serve host w' t).2 := by
  have hall : t.writes = false → ∀ l, c.allowed l := fun ht l => hallowed l fun ht' => by cases ht.symm.trans ht'
  cases t with
  | wait =>
    obtain ⟨hevent, hlike⟩ := Twin.waitEvent (hall rfl) w w' hw
    exact ⟨congrArg Answer.event hevent, hlike⟩
  | ask r =>
    cases r with
    | checkEvents =>
      obtain ⟨hquit, hlike⟩ := hw.seen Display.peekQuit_apart
      exact ⟨congrArg (fun quit : Bool => Answer.reply (if quit then .error .exit else .ok .none)) hquit, hlike⟩
    | bindMouse region mode =>
      exact ⟨rfl, hw.changed (f := fun w => { w with panel := w.panel.bindMouse region }) (fun _ => rfl) fun _ => rfl⟩
    | bindKey k l =>
      exact ⟨rfl, hw.changed (f := fun w => { w with panel := w.panel.bindKey k l }) (fun _ => rfl) fun _ => rfl⟩
    | showMenu menu =>
      obtain ⟨hresult, hlike⟩ := Twin.showMenu menu w w' hw
      exact ⟨congrArg (fun r : Except Failure Unit => Answer.reply ((r.map fun _ => Datum.none).mapError .failure)) hresult,
        hlike⟩
    | forward cmd args =>
      cases hi : Instruction.ofCall? cmd args with
      | none =>
        have hrefused : ∀ w, serve host w (.ask (.forward cmd args)) = (.reply (.error (.failure misplaced)), w) := by
          intro w
          simp only [serve, host, call, forward, Panel.instructionOf_none hi]
          rfl
        have hscene : c.after (.ask (.forward cmd args)) = c := by
          simp only [Scene.after, Turn.textStyle?, Turn.scale?, Turn.instruction?, hi]
          rfl
        rw [hrefused, hrefused, hscene]
        exact ⟨rfl, hw⟩
      | some i =>
        have hscene : c.after (.ask (.forward cmd args)) =
            { c with style := i.textStyle?.getD c.style, scale := i.scale?.getD c.scale } := by
          simp only [Scene.after, Turn.textStyle?, Turn.scale?, Turn.instruction?, hi]
          rfl
        have hwrites : (Turn.ask (.forward cmd args)).writes = i.writes := by
          simp only [Turn.writes, Turn.instruction?, hi, Option.any_some]
        rw [hwrites] at hallowed
        obtain ⟨hresult, hlike⟩ := carryOut_like hw (haccepted i hi) hallowed
        rw [hscene]
        simp only [serve, call_forward hi]
        exact ⟨congrArg (fun r : Except Failure Datum => Answer.reply (r.mapError .failure)) hresult, hlike⟩

omit hw in
theorem drawText_of_carryOut {x y text : Value} {d : Datum} {w₁ : Window} (h : (do
    drawText x y text
    return .none : Draw Datum).run.run w = (.ok d, w₁)) : (drawText x y text).run.run w = (.ok (), w₁) := by
  rw [run_bind] at h
  rcases hdraw : (drawText x y text).run.run w with ⟨_ | _, w₂⟩ <;> rw [hdraw] at h <;> cases h
  rfl

theorem carryOut_prints {i : Instruction} {v : Value} {d : Datum} {w₁ : Window} (hv : i.text? = some v)
    (h : (carryOut i).run.run w = (.ok d, w₁)) : ∃ l, c.style.lettering c.scale = .ok l ∧
      w₁.printed = w.printed ++ (c.style.pieces v).map fun u => (some l, u) := by
  cases i with
  | text x y s =>
    cases hv
    exact drawText_prints hw.style hw.scale hw.cache (drawText_of_carryOut h)
  | number x y n =>
    obtain ⟨s, hs, rfl⟩ := Except.exists_of_map_toOption hv
    have hlift : carryOut (.number x y n) = (liftM n.numberText : Draw String) >>= fun s => do
        drawText x y (.text s)
        return .none := rfl
    rw [hlift, hs, run_lift_bind] at h
    exact drawText_prints hw.style hw.scale hw.cache (drawText_of_carryOut h)
  | _ => cases hv

theorem serve_prints {v : Value} {d : Datum} (hv : t.text? = some v) (h : (serve host w t).1 = .reply (.ok d)) :
    ∃ l, c.style.lettering c.scale = .ok l ∧
      (serve host w t).2.printed = w.printed ++ (c.style.pieces v).map fun u => (some l, u) := by
  obtain ⟨i, hi, htext⟩ := Option.bind_eq_some_iff.mp hv
  cases t with
  | wait => cases hi
  | ask r =>
    cases r with
    | forward cmd args =>
      simp only [serve, call_forward hi] at h ⊢
      have hok : ((carryOut i).run.run w).1 = .ok d := Except.mapError_eq_ok.mp (Answer.reply.inj h)
      exact carryOut_prints hw htext (Prod.ext hok rfl)
    | _ => cases hi

theorem serve_renewing (haccepted : t.Accepted)
    (hallowed : ∀ l, (t.writes = true → c.style.lettering c.scale = .ok l) → c.allowed l) :
    (serve host w t).1 = (serve renewing w' t).1 ∧ Like (c.after t) (serve host w t).2 (serve renewing w' t).2 := by
  cases t with
  | wait => exact serve_like hw haccepted hallowed
  | ask r => exact serve_like hw.forget haccepted hallowed

end

/-! ## Rows of turns -/

section

variable {world : World} {caption : Value} {dimensions : Option (Int × Int)} {w : Window}
  (hopen : Window.open world caption dimensions = .ok w)

include hopen

theorem open_texts : w.textStyle = {} ∧ w.font = none := by
  unfold Window.open at hopen
  dsimp only at hopen
  split at hopen
  · cases hopen
  · split at hopen
    · cases hopen
    · split at hopen
      rename_i w₁ hrun
      obtain rfl : _ = w₁ := congrArg Prod.snd hrun
      split at hopen
      · cases hopen
      · cases hopen
        exact ⟨rfl, rfl⟩

theorem served_like {ts : List Turn} (haccepted : ∀ t ∈ ts, t.Accepted) :
    Like ⟨Turn.latest Turn.textStyle? {} ts, Turn.latest Turn.scale? Outline.metricScale ts,
      (served host w ts).gallery.shown, fun _ => True, []⟩ (served host w ts) (served renewing w ts) := by
  induction ts using List.reverseRecOn with
  | nil =>
    obtain ⟨hstyle, hfont⟩ := open_texts hopen
    have hscale : w.scale = Outline.metricScale := congrArg Situation.scale (open_situation hopen)
    have hcache : ∀ style scale, w.Caches style scale := fun style scale f hf => by cases hfont.symm.trans hf
    exact ⟨rfl, hstyle, hscale, ⟨[], (List.append_nil _).symm, (List.append_nil _).symm, List.forall_mem_nil _⟩,
      List.forall_mem_nil _, hcache _ _, hcache _ _⟩
  | append_singleton ts t ih =>
    have hlike := ih fun t' ht' => haccepted t' (List.mem_append_left _ ht')
    have ht := haccepted t (List.mem_append_right _ (List.mem_singleton.mpr rfl))
    obtain ⟨-, hnext⟩ := serve_renewing hlike ht fun l _ => trivial
    rw [served_append, served_append, Turn.latest_append, Turn.latest_append]
    exact hnext.rebase _

end

/-! ## Programs -/

theorem Turn.accepted_of_ne {cmd : Command} {args : List Value} (h : cmd ≠ .useFont) :
    (Turn.ask (.forward cmd args)).Accepted := by
  intro i hi
  cases i with
  | font => exact absurd (Instruction.of_font hi) h
  | _ => trivial

/-- A program has numbers where it chooses a font. -/
theorem accepted_of_planned {p : Program} {maxStack : Int} {s : State} {a : Action} {pl : Plan}
    (h : Planned p maxStack s a pl) (hproper : a.Proper) : ∀ r ∈ pl.requests, (Turn.ask r).Accepted := by
  intro r hr
  cases h with
  | plain c =>
    obtain rfl := List.mem_singleton.mp hr
    refine Turn.accepted_of_ne ?_
    rintro rfl
    cases hproper
  | wait _ | setWaitMode _ | messageBox _ =>
    obtain rfl := List.mem_singleton.mp hr
    exact Turn.accepted_of_ne (by decide)
  | @forward c args _ =>
    obtain rfl := List.mem_singleton.mp hr
    by_cases hc : c = .useFont
    · subst hc
      -- The slots for width, height and the parts of the colour are slots for integers.
      rcases hproper with _ | ⟨-, _ | ⟨h2, _ | ⟨h3, _ | ⟨-, _ | ⟨-, _ | ⟨-, _ | ⟨h7, _ | ⟨h8, _ | ⟨h9, ⟨⟩⟩⟩⟩⟩⟩⟩⟩⟩⟩
      intro i hi
      cases hi
      have hnumber : ∀ {x : Argument}, Slot.int.Holds x → ∃ n, (s.resolve x).bare = .int n := by
        intro x hx
        obtain ⟨n, hn⟩ := hx.resolve_int (s := s)
        exact ⟨n, by rw [hn]; rfl⟩
      simp only [Instruction.Accepted, List.forall_mem_cons]
      exact ⟨hnumber h2, hnumber h3, hnumber h7, hnumber h8, hnumber h9, List.forall_mem_nil _⟩
    · exact Turn.accepted_of_ne hc
  | setMouse _ | setKeyboard _ _ =>
    rcases List.mem_cons.mp hr with rfl | hr
    · exact Turn.accepted_of_ne (by decide)
    · obtain ⟨_, -, rfl⟩ := List.mem_map.mp hr
      exact fun i hi => by cases hi
  | setMenu _ =>
    rcases List.mem_cons.mp hr with rfl | hr
    · exact Turn.accepted_of_ne (by decide)
    · obtain rfl := List.mem_singleton.mp hr
      exact fun i hi => by cases hi
  | _ => cases hr

/-- A window shows what one that keeps no font would show, if fonts are chosen with numbers in their places. -/
theorem kept_font_fresh {source : String} {pedantic : Bool} {p : Program} (hp : Program.parse source pedantic = .ok p)
    {world : World} {caption : Value} {dimensions : Option (Int × Int)} {w : Window}
    (hopen : Window.open world caption dimensions = .ok w) :
    (∀ (maxStack : Int) (s : State) (i : Nat) (st : Statement) (pl : Plan), p.statements[i]? = some st →
      plan p maxStack s st = .ok pl → ∀ r ∈ pl.requests, (Turn.ask r).Accepted) ∧
    ∀ ts : List Turn, (∀ t ∈ ts, t.Accepted) →
      (served host w ts).gallery.shown = (served renewing w ts).gallery.shown ∧
      ∀ t : Turn, t.Accepted →
        (serve host (served host w ts) t).1 = (serve renewing (served renewing w ts) t).1 ∧
        (t.writes = true → ∃ new, (serve host (served host w ts) t).2.gallery.shown =
          (served host w ts).gallery.shown ++ new ∧ ∀ x ∈ new, x.Within fun l => Turn.lettering ts = .ok l) ∧
        ∀ v d, t.text? = some v → (serve host (served host w ts) t).1 = .reply (.ok d) →
          ∃ l, Turn.lettering ts = .ok l ∧ (serve host (served host w ts) t).2.printed = (served host w ts).printed ++
            ((Turn.latest Turn.textStyle? {} ts).pieces v).map fun u => (some l, u) := by
  obtain ⟨lines, hlines, rfl⟩ := Program.parse_eq_ofLines hp
  have wf := Program.ofLines_wellFormed hlines
  refine ⟨fun maxStack s i st pl hst hpl => accepted_of_planned (planned_of_plan hpl) (wf.proper i st hst), ?_⟩
  intro ts hts
  have hlike := served_like hopen hts
  refine ⟨hlike.shown_eq, fun t ht => ⟨(serve_renewing hlike ht fun _ _ => trivial).1, fun hwrites => ?_,
    fun v d hv hd => serve_prints hlike hv hd⟩⟩
  obtain ⟨-, hnext⟩ := serve_renewing (hlike.rebase fun l => Turn.lettering ts = .ok l) ht fun l hl => hl hwrites
  obtain ⟨new, hnew, -, hwithin⟩ := hnext.shown
  exact ⟨new, hnew, hwithin⟩

def fontProgram : String := "UseFont(\"F\",0,6,BOLD,NOITALIC,UNDERLINE,1,2,3) DrawText(1,2,\"a\")"

/-- A text is drawn. -/
def textTurn : Turn := .ask (.forward .drawText [.int 1, .int 2, .text "a"])

/-- A font is chosen, in a colour with some blue. -/
def fontTurn (blue : Value) : Turn := .ask (.forward .useFont
  [.text "F", .int 0, .int 6, .token "BOLD", .token "NOITALIC", .token "UNDERLINE", .int 1, .int 2, blue])

/-- A text is drawn, and then both the font and the coordinates are changed. -/
def changingTurns : List Turn := [textTurn, fontTurn (.int 3), .ask (.forward .useCoordinates [.token "PIXEL"])]

theorem kept_font_fresh_changing : ∃ p w, Program.parse fontProgram false = .ok p ∧
    Window.open {} (.text "c") none = .ok w ∧ (∀ t ∈ changingTurns, t.Accepted) ∧ textTurn.Accepted ∧
    Turn.lettering changingTurns = .ok ⟨⟨.text "F", 6, true, false⟩, true⟩ ∧
    (∀ st pl, p.statements[0]? = some st → plan p 10 {} st = .ok pl → ∀ r ∈ pl.requests, (Turn.ask r).Accepted) ∧
    (served host w changingTurns).gallery.shown = (served renewing w changingTurns).gallery.shown ∧
    (serve host (served host w changingTurns) textTurn).1 = (serve renewing (served renewing w changingTurns) textTurn).1 ∧
    (∃ new, (serve host (served host w changingTurns) textTurn).2.gallery.shown =
      (served host w changingTurns).gallery.shown ++ new ∧
        ∀ x ∈ new, x.Within fun l => Turn.lettering changingTurns = .ok l) ∧
    (served host w changingTurns).printed = [(some ⟨⟨.nothing, 18, false, false⟩, false⟩, .text "a")] ∧
    (∃ d, (serve host (served host w changingTurns) textTurn).1 = .reply (.ok d)) ∧
    ∃ l, Turn.lettering changingTurns = .ok l ∧ (serve host (served host w changingTurns) textTurn).2.printed =
      (served host w changingTurns).printed ++ [(some l, .text "a")] := by
  have hrun : (Program.parse fontProgram false).toOption.map (fun _ =>
      (Window.open {} (.text "c") none).toOption.map fun w =>
      (host.call (.forward .drawText [.int 1, .int 2, .text "a"]) (served host w changingTurns)).1.toOption.map fun _ =>
      (served host w changingTurns).printed) =
      some (some (some [(some ⟨⟨.nothing, 18, false, false⟩, false⟩, .text "a")])) := by decide +kernel
  obtain ⟨p, hparse, hrun⟩ := Except.exists_of_map_toOption hrun
  obtain ⟨w, hopen, hrun⟩ := Except.exists_of_map_toOption hrun
  obtain ⟨d, hdrawn, hprinted⟩ := Except.exists_of_map_toOption hrun
  have htext : textTurn.Accepted := Turn.accepted_of_ne (by decide)
  have hturns : ∀ t ∈ changingTurns, t.Accepted := by
    simp only [changingTurns, List.forall_mem_cons]
    refine ⟨htext, ?_, Turn.accepted_of_ne (by decide), List.forall_mem_nil _⟩
    intro i hi
    cases hi
    simp [Instruction.Accepted, Value.bare]
  obtain ⟨hprogram, hfresh⟩ := kept_font_fresh hparse hopen
  obtain ⟨hshown, hnext⟩ := hfresh changingTurns hturns
  obtain ⟨hanswer, hnew, hprints⟩ := hnext textTurn htext
  have hreply : (serve host (served host w changingTurns) textTurn).1 = .reply (.ok d) := congrArg Answer.reply hdrawn
  exact ⟨p, w, hparse, hopen, hturns, htext, by decide +kernel, fun st pl => hprogram 10 {} 0 st pl, hshown, hanswer,
    hnew rfl, hprinted, ⟨d, hreply⟩, hprints _ d rfl hreply⟩

/-- A font refused for its colour changes the style, and the next text is shown in the old font. -/
theorem kept_font_stale : ∃ w, Window.open {} (.text "c") none = .ok w ∧ ¬ (fontTurn .nothing).Accepted ∧
    (served host w [textTurn, fontTurn .nothing, textTurn]).printed =
      [(some ⟨⟨.nothing, 18, false, false⟩, false⟩, .text "a"), (some ⟨⟨.nothing, 18, false, false⟩, false⟩, .text "a")] ∧
    (served renewing w [textTurn, fontTurn .nothing, textTurn]).printed =
      [(some ⟨⟨.nothing, 18, false, false⟩, false⟩, .text "a"), (some ⟨⟨.text "F", 22, true, false⟩, true⟩, .text "a")] := by
  have hrun : (Window.open {} (.text "c") none).toOption.map (fun w => decide (
      (served host w [textTurn, fontTurn .nothing, textTurn]).printed =
        [(some ⟨⟨.nothing, 18, false, false⟩, false⟩, .text "a"), (some ⟨⟨.nothing, 18, false, false⟩, false⟩, .text "a")] ∧
      (served renewing w [textTurn, fontTurn .nothing, textTurn]).printed =
        [(some ⟨⟨.nothing, 18, false, false⟩, false⟩, .text "a"),
          (some ⟨⟨.text "F", 22, true, false⟩, true⟩, .text "a")])) = some true := by decide +kernel
  obtain ⟨w, hopen, hrun⟩ := Except.exists_of_map_toOption hrun
  obtain ⟨hkept, hrenewed⟩ := of_decide_eq_true hrun
  refine ⟨w, hopen, fun haccepted => ?_, hkept, hrenewed⟩
  obtain ⟨n, hn⟩ := haccepted _ rfl .nothing (by simp [Value.bare])
  cases hn

end Window

end GraphicsBatch
