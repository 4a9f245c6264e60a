import GraphicsBatch.Window.Input
import GraphicsBatch.Window.Paint

/-! # The window as a host -/

namespace GraphicsBatch.Window

/-- Minimises, maximises or restores the window. -/
def setWindow (option : Value) : Draw Unit := do
  let w ← get
  if option = .text "MINIMIZE" then emit .iconify
  else if option = .text "MAXIMIZE" then
    resize (w.display.desktop.1, w.display.desktop.2 - w.menuHeight)
  else resize w.restoreSize

/-! ## What is drawn with

A setting that is not what it should be leaves the ones before it changed.
-/

def useBackground (option r g b : Value) : Draw Unit := do
  modify fun w => { w with solidBackground := option = .text "OPAQUE" }
  let background ← colourOf r g b
  modify fun w => { w with background }

def useBrush (style r g b : Value) : Draw Unit := do
  modify fun w => { w with brush.style := style }
  let colour ← colourOf r g b
  modify fun w => { w with brush.colour := colour }

def usePen (style width r g b : Value) : Draw Unit := do
  modify fun w => { w with pen.style := style }
  let width ← width.number
  modify fun w => { w with pen.width := max 0 width }
  let colour ← colourOf r g b
  modify fun w => { w with pen.colour := colour }

def useFont (name width height weight slant underline r g b : Value) : Draw Unit := do
  modify fun w => { w with textStyle.name := name }
  let width ← width.number
  let height ← height.number
  modify fun w => { w with textStyle := { w.textStyle with
    width := max 0 width
    height := max 0 height
    bold := weight = .text "BOLD"
    italic := slant = .text "ITALIC"
    underline := underline = .text "UNDERLINE" } }
  let colour ← colourOf r g b
  modify fun w => { w with textStyle.colour := colour, font := none }

def useCoordinates (system : Value) : Draw Unit :=
  modify fun w => { w with scale := Outline.programScale system, font := none }

def useCaption (text : Value) : Draw Unit := do
  modify fun w => { w with caption := text }
  emit (.setCaption text)

/-! ## Instructions -/

/-- The arc of an ellipse in a rectangle, with its centre. -/
def arcOf (x1 y1 x2 y2 x3 y3 x4 y4 : Value) : Draw (Point × List Point) :=
  return Outline.boundedArc (← pixels x1) (← pixels y1) (← pixels x2) (← pixels y2)
    (← pixels x3) (← pixels y3) (← pixels x4) (← pixels y4)

/-- Hands an instruction on to the plain host. -/
def viaPanel (i : Instruction) : Draw Datum := do
  let w ← get
  let (result, panel) := w.panel.carryOut i
  set { w with panel }
  result

/-- Carries out an instruction. -/
def carryOut (i : Instruction) : Draw Datum := do
  match i with
  | .beep => beep
  | .clear =>
    let w ← get
    emit (.fill w.canvas.id ⟨w.background, none⟩)
  | .arc x1 y1 x2 y2 x3 y3 x4 y4 =>
    let (_, points) ← arcOf x1 y1 x2 y2 x3 y3 x4 y4
    stroke points
  | .chord x1 y1 x2 y2 x3 y3 x4 y4 =>
    let (_, points) ← arcOf x1 y1 x2 y2 x3 y3 x4 y4
    -- The outline ends where it starts.
    shape (points ++ points.take 1)
  | .pie x1 y1 x2 y2 x3 y3 x4 y4 =>
    let (centre, points) ← arcOf x1 y1 x2 y2 x3 y3 x4 y4
    shape (points ++ [centre] ++ points.take 1)
  | .ellipse x1 y1 x2 y2 =>
    shape (Outline.ellipse (← pixels x1) (← pixels y1) (← pixels x2) (← pixels y2))
  | .line x1 y1 x2 y2 => stroke [← pointAt x1 y1, ← pointAt x2 y2]
  | .rectangle x1 y1 x2 y2 =>
    shape (Outline.rectangle (← pixels x1) (← pixels y1) (← pixels x2) (← pixels y2))
  | .roundRectangle x1 y1 x2 y2 width height =>
    shape (Outline.roundRectangle (← pixels x1) (← pixels y1) (← pixels x2) (← pixels y2)
      (← pixels width) (← pixels height))
  | .flood x y r g b => flood x y r g b
  | .bitmap x y file => bitmap x y file
  | .sizedBitmap x1 y1 x2 y2 file => sizedBitmap x1 y1 x2 y2 file
  | .number x y n => drawText x y (.text (← n.numberText))
  | .text x y s => drawText x y s
  | .messageBox type default icon text caption =>
    return .int (← messageBox type default icon text caption)
  | .setWindow option => setWindow option
  | .background option r g b => useBackground option r g b
  | .brush style r g b => useBrush style r g b
  | .pen style width r g b => usePen style width r g b
  | .font name width height weight slant underline r g b =>
    useFont name width height weight slant underline r g b
  | .coordinates system => useCoordinates system
  | .caption text => useCaption text
  | _ => return (← viaPanel i)
  return .none

def forward (name : String) (args : List Value) : Draw Datum :=
  match Panel.instructionOf name args with
  | none => do
    note (Panel.unsupported name)
    return .none
  | some (.error f) => throw f
  | some (.ok i) => carryOut i

def call (r : Request) (w : Window) : Except Signal Datum × Window :=
  match r with
  | .checkEvents =>
    let (quit, w) := w.isClosing
    (if quit then .error .exit else .ok .none, w)
  | .forward c args =>
    let (result, w) := (forward c.name args).run.run w
    (result.mapError .failure, w)
  | .showMenu menu =>
    let (result, w) := (showMenu menu).run.run w
    ((result.map fun _ => .none).mapError .failure, w)
  | _ =>
    let (result, panel) := w.panel.call r
    (result, { w with panel })

def host : Host Window where
  call
  note r w := { w with panel := w.panel.note r }

end GraphicsBatch.Window
