import GraphicsBatch.Window.Basic

/-! # Drawing on the canvas -/

namespace GraphicsBatch.Window

/-- An integer of the program in pixels. -/
def scaled (w : Window) (n : Int) : Except NumberFault Float :=
  (Binary64.ofInt n).map fun x => x * w.scale

/-- An argument of the program in pixels. -/
def pixels (v : Value) : Draw Float := do
  let n ← v.number
  inRange ((← get).scaled n)

def pointAt (x y : Value) : Draw Point := return ⟨← pixels x, ← pixels y⟩

/-! ## Brushes -/

/-- The side of the square that a hatched brush repeats. -/
def tileSize : Int := 8

/-- The lines of a hatched brush. -/
def hatchLines : List (String × List (Pixel × Pixel)) :=
  let last := tileSize - 1
  let up : Pixel × Pixel := (⟨0, last⟩, ⟨last, 0⟩)
  let down : Pixel × Pixel := (⟨0, 0⟩, ⟨last, last⟩)
  let across : Pixel × Pixel := (⟨0, 0⟩, ⟨last, 0⟩)
  let upright : Pixel × Pixel := (⟨0, 0⟩, ⟨0, last⟩)
  [("DIAGONALUP", [up]), ("DIAGONALDOWN", [down]), ("DIAGONALCROSS", [up, down]),
    ("HORIZONTAL", [across]), ("VERTICAL", [upright]), ("CROSS", [across, upright])]

/-- A tile of the hatched brush, over the background if that is solid. -/
def hatchTile : Draw Surface := do
  let tile ← newSurface tileSize tileSize true
  let w ← get
  emit (.fill tile.id (if w.solidBackground then .solid w.background else .clear))
  let lines ← optionOf hatchLines w.brush.style
  lines.forM fun (a, b) => emit (.line tile.id w.brush.colour a b)
  return tile

/-- Multiples of the tile size below a length. -/
def tileStarts (length : Int) : List Int :=
  (List.range ((length + tileSize - 1) / tileSize).toNat).map fun (i : Nat) => i * tileSize

/-- A surface covered with the brush. -/
def brushSurface (width height : Int) : Draw Surface := do
  let s ← newSurface width height true
  let w ← get
  if w.brush.style = .text "SOLID" then emit (.fill s.id (.solid w.brush.colour))
  else
    let tile ← hatchTile
    (tileStarts width).forM fun x => (tileStarts height).forM fun y =>
      emit (.blit s.id tile.id (.pixel ⟨x, y⟩) false)
  return s

/-- Paints with the brush where a stencil is white. -/
def paintThrough (stencil : Surface) (corner : Pixel) : Draw Unit := do
  let w ← get
  if w.brush.style ≠ .text "NULL" then
    let fill ← brushSurface stencil.width stencil.height
    emit (.blit fill.id stencil.id (.pixel ⟨0, 0⟩) true)
    emit (.blit w.canvas.id fill.id (.pixel corner) false)

/-! ## Shapes -/

/-- The smallest and the largest number of a row. -/
def extent (first : Float) (rest : List Float) : Float × Float :=
  (rest.foldl Outline.least first, rest.foldl Outline.greatest first)

/-- Fills a shape with the brush. -/
def fillShape (points : List Point) : Draw Unit := do
  let w ← get
  match points with
  | p :: ps =>
    if w.brush.style ≠ .text "NULL" ∧ 2 < points.length then
      let (minX, maxX) := extent p.x (ps.map (·.x))
      let (minY, maxY) := extent p.y (ps.map (·.y))
      let left ← inRange (Binary64.floor minX)
      let top ← inRange (Binary64.floor minY)
      let right ← inRange (Binary64.ceil maxX)
      let bottom ← inRange (Binary64.ceil maxY)
      let stencil ← newSurface (right - left + 1) (bottom - top + 1) true
      emit (.fill stencil.id .clear)
      -- The points move along, so that the shape begins at the corner of the stencil.
      let dx ← inRange (Binary64.ofInt left)
      let dy ← inRange (Binary64.ofInt top)
      emit (.polygon stencil.id (.solid .white) (points.map fun q => ⟨q.x - dx, q.y - dy⟩))
      paintThrough stencil ⟨left, top⟩
  | [] => return ()

/-- Draws a line of points, first with the background and then with the pen. -/
def stroke (points : List Point) : Draw Unit := do
  let w ← get
  if 1 < points.length then
    let width := max 1 w.pen.width
    if w.solidBackground then emit (.lines w.canvas.id w.background points width)
    if w.pen.style ≠ .text "NULL" then
      let pattern ← optionOf Outline.penDashes w.pen.style
      (Outline.dashes points pattern).forM fun segment =>
        if 1 < segment.length then emit (.lines w.canvas.id w.pen.colour segment width)
        else return ()

/-- Fills a shape and draws its outline. -/
def shape (points : List Point) : Draw Unit := do
  fillShape points
  stroke points

/-- A colour given by its parts. -/
def colourOf (r g b : Value) : Except Failure Colour :=
  return .clip (← r.number) (← g.number) (← b.number)

/-- Fills the area around a point up to a border of some colour. -/
def flood (x y r g b : Value) : Draw Unit := do
  let place ← pointAt x y
  let p : Pixel := ⟨← inRange (Binary64.truncate place.x), ← inRange (Binary64.truncate place.y)⟩
  let w ← get
  if 0 ≤ p.x ∧ p.x < w.size.1 ∧ 0 ≤ p.y ∧ p.y < w.size.2 then
    let border ← colourOf r g b
    emit (.mask w.canvas.id border)
    -- The area is of any colour but that of the border.
    emit .maskInvert
    emit (.maskGet p)
    if w.display.flood then
      emit (.maskComponent p)
      let stencil ← number w.canvas.width w.canvas.height
      emit (.maskSurface stencil.id)
      paintThrough stencil ⟨0, 0⟩

/-! ## Bitmaps -/

/-- The size of the image of a name. -/
def imageSize? (d : Display) : Value → Option (Int × Int)
  | .text file => d.images.lookup file
  | _ => none

def loadImage (file : Value) : Draw Surface := do
  match imageSize? (← get).display file with
  | none => throw (.display ("cannot load " ++ file.plainText))
  | some (width, height) =>
    let s ← number width height
    emit (.load s.id file)
    return s

def bitmap (x y file : Value) : Draw Unit := do
  let image ← loadImage file
  let place ← pointAt x y
  emit (.blit (← get).canvas.id image.id (.point place) false)

/-- Draws an image stretched to a rectangle, mirrored if its corners are swapped. -/
def sizedBitmap (x1 y1 x2 y2 file : Value) : Draw Unit := do
  let a ← pointAt x1 y1
  let b ← pointAt x2 y2
  let width ← inRange (Binary64.truncate (b.x - a.x).abs)
  let height ← inRange (Binary64.truncate (b.y - a.y).abs)
  if width ≠ 0 ∧ height ≠ 0 then
    let image ← loadImage file
    let large ← number width height
    emit (.scale large.id image.id width height)
    let final ← number width height
    emit (.mirror final.id large.id (b.x < a.x) (b.y < a.y))
    emit (.blit (← get).canvas.id final.id
      (.point ⟨Outline.least a.x b.x, Outline.least a.y b.y⟩) false)

/-! ## Text -/

def defaultTextHeight : Int := 18

/-- The pixel height of the text style. -/
def textHeight (w : Window) : Except NumberFault Int :=
  if w.textStyle.height = 0 then .ok defaultTextHeight
  else do return max 1 (← Binary64.truncate (← w.scaled w.textStyle.height))

/-- The name by which a font is asked for; none if it is empty. -/
def fontName (name : Value) : Value :=
  if name = .text "" ∨ name = .int 0 then .nothing else name

/-- The font of the text style, made when it is first needed. -/
def textFont : Draw Font := do
  let w ← get
  match w.font with
  | some f => return f
  | none =>
    let style := w.textStyle
    let height ← inRange w.textHeight
    let f ← newFont (fontName style.name) height style.bold style.italic
    emit (.underline f.id style.underline)
    modify fun w => { w with font := some f }
    return f

/-- A text whose characters are all equally wide. -/
def spacedText (f : Font) (text : Value) (background : Option Colour) : Draw Surface := do
  let w ← get
  let width ← inRange (w.scaled w.textStyle.width)
  let step := max 1 (← inRange (Binary64.truncate width))
  measurable text
  let parts := text.parts?.getD []
  let s ← newSurface (step * parts.length) f.lineHeight true
  emit (.fill s.id (background.elim .clear .solid))
  parts.zipIdx.forM fun (part, i) => do
    let glyph ← render f part w.textStyle.colour none
    emit (.blit s.id glyph.id (.pixel ⟨i * step, 0⟩) false)
  return s

def drawText (x y text : Value) : Draw Unit := do
  let f ← textFont
  let w ← get
  let background := if w.solidBackground then some w.background else none
  let s ← if w.textStyle.width = 0 then render f text w.textStyle.colour background
    else spacedText f text background
  let place ← pointAt x y
  emit (.blit w.canvas.id s.id (.point place) false)

/-! ## Sound -/

def beep : Draw Unit := do
  let w ← get
  let play (rate channels : Int) : Draw Unit := do
    let _ ← inRange (Binary64.ofInt rate)
    emit (.play (Sound.byteCount rate channels Sound.beepDuration))
  match w.display.mixer with
  | .broken => note ⟨.warning, "Could not initialise sound: no audio device"⟩
  | .on rate _ channels => play rate channels
  | .off =>
    emit (.mixerInit Sound.mixerRate (-16) 1)
    modify (mapDisplay fun d => { d with mixer := .on Sound.mixerRate (-16) 1 })
    play Sound.mixerRate 1

end GraphicsBatch.Window
