import GraphicsBatch.Host.Panel
import GraphicsBatch.Sound

/-! # The window

A window shows a canvas under an optional menu bar. Commands draw on the canvas; the window itself is
redrawn from it.
-/

namespace GraphicsBatch

structure Pen where
  style : Value := .text "SOLID"
  width : Int := 1
  colour : Colour := .black
deriving DecidableEq, Inhabited

structure Brush where
  style : Value := .text "NULL"
  colour : Colour := .black
deriving DecidableEq, Inhabited

/-- How text is drawn. A width or height of 0 leaves the choice to the font. -/
structure TextStyle where
  name : Value := .text ""
  width : Int := 0
  height : Int := 0
  bold : Bool := false
  italic : Bool := false
  underline : Bool := false
  colour : Colour := .black
deriving DecidableEq, Inhabited

structure Window where
  panel : Panel
  caption : Value
  /-- Width and height of the canvas. -/
  size : Int × Int
  /-- The size to which the window is restored. -/
  restoreSize : Int × Int
  pen : Pen := {}
  brush : Brush := {}
  /-- Whether the background shows behind lines, hatches and text. -/
  solidBackground : Bool := true
  background : Colour := .white
  textStyle : TextStyle := {}
  /-- The font of the text style, once it has been needed. -/
  font : Option Font := none
  /-- Pixels in a unit of the program's coordinates. -/
  scale : Float := Outline.metricScale
  /-- Index of the popup that is open. -/
  openPopup : Option Nat := none
  canvas : Surface := default
  /-- Width and height of the window on the screen. -/
  frame : Int × Int := (0, 0)
deriving Inhabited

namespace Window

def defaultSize : Int × Int := (800, 600)
def menuBarHeight : Int := 22
def face : Colour := ⟨212, 208, 200⟩
def shadow : Colour := ⟨128, 128, 128⟩
def titleBlue : Colour := ⟨0, 0, 128⟩

/-- Work at a window, which may fail on the way. -/
abbrev Draw := ExceptT Failure (StateM Window)

/-! ## The display below -/

def display (w : Window) : Display := w.panel.world.display

def mapWorld (f : World → World) (w : Window) : Window := { w with panel := w.panel.mapWorld f }

def mapDisplay (f : Display → Display) (w : Window) : Window := w.mapWorld (·.mapDisplay f)

/-- A number that may be out of range. -/
def inRange {α : Type} (r : Except NumberFault α) : Draw α := r.mapError Failure.number

def emit (c : Call) : Draw Unit := modify (mapDisplay (·.push c))

/-- Numbers a new surface. -/
def number (width height : Int) : Draw Surface := do
  let id := (← get).display.surfaces + 1
  modify (mapDisplay fun d => { d with surfaces := id })
  return ⟨id, width, height⟩

def newSurface (width height : Int) (alpha : Bool) : Draw Surface := do
  let s ← number width height
  emit (.surface s alpha)
  return s

def newFont (name : Value) (height : Int) (bold italic : Bool) : Draw Font := do
  let d := (← get).display
  let id := d.fonts + 1
  modify (mapDisplay fun d => { d with fonts := id })
  emit (.font id name height bold italic)
  return d.metrics.font id ⟨name, height, bold, italic⟩

/-- Sees to it that a value can be measured as a text. -/
def measurable (text : Value) : Draw Unit :=
  if text.length?.isNone then throw misplaced else return ()

/-- Renders a text on a surface of its own. -/
def render (f : Font) (text : Value) (colour : Colour) (background : Option Colour) :
    Draw Surface := do
  measurable text
  let s ← number (f.widthOf text) f.height
  emit (.render s.id f.id text colour background)
  return s

def note (r : Record) : Draw Unit := modify fun w => { w with panel := w.panel.note r }

/-! ## Size -/

def menuHeight (w : Window) : Int := if w.panel.menu.isEmpty then 0 else menuBarHeight

/-- Makes the window as large as canvas and menu bar together. -/
def fitFrame : Draw Unit := do
  let w ← get
  let frame := (w.size.1, w.size.2 + w.menuHeight)
  emit (.setMode frame.1 frame.2)
  modify fun w => { w with frame }

/-- Gives the canvas another size and keeps what has been drawn. -/
def resize (size : Int × Int) : Draw Unit := do
  modify fun w => { w with size }
  let canvas ← newSurface size.1 size.2 false
  let w ← get
  emit (.fill canvas.id ⟨w.background, none⟩)
  emit (.blit canvas.id w.canvas.id (.pixel ⟨0, 0⟩) false)
  modify fun w => { w with canvas }
  fitFrame

/-! ## Opening and closing -/

def closing (d : Display) : Display := (d.push .closeWindow).push .stop

/-- Opens a window. Fails with a reason if there is no display to show it on. -/
def «open» (world : World) (caption : Value) (dimensions : Option (Int × Int)) :
    Except (String × World) Window :=
  let fail (reason : String) (d : Display) : Except (String × World) Window :=
    .error (reason, { world with display := d })
  if world.display.defect = .missing then fail "Module `pygame` not found" world.display
  else
    let d := world.display.push .start
    if d.defect = .noDriver then
      fail "No suitable display driver: video system not initialized" (closing d)
    else
      let size := dimensions.getD defaultSize
      let w : Window := {
        panel := { world := { world with display := d } }, caption, size, restoreSize := size }
      -- The canvas comes before the window, so it is there even if the window is not.
      let canvas : Draw Unit := do
        let canvas ← newSurface size.1 size.2 false
        emit (.fill canvas.id ⟨.white, none⟩)
        modify fun w => { w with canvas }
      let (_, w) := canvas.run.run w
      if w.display.defect = .noWindow then
        fail "Could not initialise display: no display" (closing w.display)
      else
        let show' : Draw Unit := do
          fitFrame
          emit (.setCaption caption)
          emit (.setKeyRepeat 500 24)
        .ok (show'.run.run w).2

/-- Closes the window. -/
def close (w : Window) : Window :=
  { w with panel := w.panel.reap }.mapDisplay closing

end Window

end GraphicsBatch
