import GraphicsBatch.Language.Value
import GraphicsBatch.Outline

/-! # The display

The display is a screen with one window, input devices and a loudspeaker. All that is drawn or played
is kept as a row of calls; what the user and the machine do is given in advance.
-/

namespace GraphicsBatch

/-! ## What is drawn with -/

structure Colour where
  r : Int
  g : Int
  b : Int
deriving DecidableEq, Inhabited

namespace Colour

def white : Colour := ⟨255, 255, 255⟩
def black : Colour := ⟨0, 0, 0⟩

/-- A colour with each part brought into the range 0 to 255. -/
def clip (r g b : Int) : Colour :=
  let part (n : Int) : Int := min 255 (max 0 n)
  ⟨part r, part g, part b⟩

end Colour

/-- A colour that may let through what is under it. -/
structure Ink where
  colour : Colour
  alpha : Option Int := none
deriving DecidableEq, Inhabited

def Ink.solid (c : Colour) : Ink := ⟨c, some 255⟩

def Ink.clear : Ink := ⟨.black, some 0⟩

/-- A place in whole pixels. -/
structure Pixel where
  x : Int
  y : Int
deriving DecidableEq, Inhabited

/-- A number as rectangles keep it, in 32 bits with a sign. What does not even fit in 64 bits is
refused. -/
def stored? (n : Int) : Option Int :=
  if -9223372036854775808 ≤ n ∧ n ≤ 9223372036854775807 then some (n.bmod 4294967296) else none

/-- A place as it is compared with rectangles. -/
def Pixel.stored? (p : Pixel) : Option Pixel := do
  return ⟨← GraphicsBatch.stored? p.x, ← GraphicsBatch.stored? p.y⟩

/-- A rectangle of pixels; the right and the bottom edge are not in it. -/
structure Rect where
  left : Int
  top : Int
  width : Int
  height : Int
deriving DecidableEq, Inhabited

namespace Rect

def right (r : Rect) : Int := r.left + r.width
def bottom (r : Rect) : Int := r.top + r.height
def centre (r : Rect) : Pixel := ⟨r.left + r.width / 2, r.top + r.height / 2⟩

/-- A rectangle of some size around a centre. -/
def around (c : Pixel) (width height : Int) : Rect :=
  ⟨c.x - width / 2, c.y - height / 2, width, height⟩

def contains (r : Rect) (p : Pixel) : Bool :=
  r.left ≤ p.x && p.x < r.right && r.top ≤ p.y && p.y < r.bottom

/-- The smallest rectangle that holds two. -/
def union (a b : Rect) : Rect :=
  let left := min a.left b.left
  let top := min a.top b.top
  ⟨left, top, max a.right b.right - left, max a.bottom b.bottom - top⟩

end Rect

/-- A surface to draw on. Number 0 is the window. -/
structure Surface where
  id : Nat
  width : Int
  height : Int
deriving DecidableEq, Inhabited

/-- What a font is asked for by. -/
structure Typeface where
  name : Value
  height : Int
  bold : Bool
  italic : Bool
deriving DecidableEq, Inhabited

/-- How large texts come out on a display. Where nothing else is known, a character is half as wide as its
font is high. -/
structure Metrics where
  width : Typeface → Value → Nat := fun face text => text.length?.getD 0 * (face.height / 2).toNat
  line : Typeface → Int := fun face => face.height + 2
deriving Inhabited

structure Font where
  id : Nat
  height : Int
  widthOf : Value → Nat
  lineHeight : Int
deriving Inhabited

/-- A font of some number. -/
def Metrics.font (m : Metrics) (id : Nat) (face : Typeface) : Font :=
  ⟨id, face.height, m.width face, m.line face⟩

/-! ## Calls -/

/-- Where one surface is put on another. -/
inductive Spot where
  | pixel (p : Pixel)
  | point (p : Point)
deriving Inhabited

inductive Call where
  | start | stop | closeWindow | flip | iconify | post
  | setCaption (text : Value)
  | setKeyRepeat (delay interval : Int)
  | setMode (width height : Int)
  | wait (timeout : Int)
  | surface (s : Surface) (alpha : Bool)
  | fill (target : Nat) (ink : Ink)
  | blit (target source : Nat) (spot : Spot) (multiply : Bool)
  | line (target : Nat) (colour : Colour) (a b : Pixel)
  | lines (target : Nat) (colour : Colour) (points : List Point) (width : Int)
  | polygon (target : Nat) (ink : Ink) (points : List Point)
  | rect (target : Nat) (colour : Colour) (rect : Rect) (width : Int)
  | font (id : Nat) (name : Value) (height : Int) (bold italic : Bool)
  | underline (font : Nat) (on : Bool)
  | render (surface font : Nat) (text : Value) (colour : Colour) (background : Option Colour)
  | mask (surface : Nat) (colour : Colour)
  | maskInvert
  | maskGet (p : Pixel)
  | maskComponent (p : Pixel)
  | maskSurface (surface : Nat)
  | load (surface : Nat) (name : Value)
  | scale (surface source : Nat) (width height : Int)
  | mirror (surface source : Nat) (flipX flipY : Bool)
  | mixerInit (rate size channels : Int)
  | play (bytes : Nat)
deriving Inhabited

/-! ## What happens at the display -/

inductive DisplayEvent where
  | quit
  | click (p : Pixel) (button : Int)
  | key (code modifiers : Int) (typed : String)
  | resize (width height : Int)
  | exposed
  | other
deriving DecidableEq, Inhabited

/-- The sound mixer: silent so far, broken, or set to a rate, sample size and number of channels. -/
inductive Mixer where
  | off
  | broken
  | on (rate size channels : Int)
deriving DecidableEq, Inhabited

/-- What is wrong with a display from the start. -/
inductive Defect where
  | none | missing | noDriver | noWindow
deriving DecidableEq, Inhabited

structure Display where
  defect : Defect := .none
  desktop : Int × Int := (1024, 768)
  metrics : Metrics := {}
  /-- Whether the window has the focus, asked time after time; the last answer stays. -/
  focus : List Bool := [false]
  images : List (String × Int × Int) := []
  /-- Whether a flood finds room to spread. -/
  flood : Bool := true
  mixer : Mixer := .off
  /-- Events to come. -/
  events : List DisplayEvent := []
  /-- Events put back, which come first. -/
  posted : List DisplayEvent := []
  /-- How often the window can be looked at before it is found closed. -/
  closeAfter : Option Nat := none
  /-- How often it has been looked at. -/
  peeks : Nat := 0
  surfaces : Nat := 0
  fonts : Nat := 0
  calls : Array Call := #[]
deriving Inhabited

namespace Display

def push (d : Display) (c : Call) : Display := { d with calls := d.calls.push c }

/-- Looks whether the window is being closed, without taking an event. -/
def peekQuit (d : Display) : Bool × Display :=
  let d := { d with peeks := d.peeks + 1 }
  match d.closeAfter with
  | some n => (n < d.peeks || d.posted.contains .quit, d)
  | none => (d.posted.contains .quit, d)

/-- Takes the next event: one that was put back, or one to come. -/
def takeEvent (d : Display) : Option DisplayEvent × Display :=
  match d.posted with
  | e :: rest => (some e, { d with posted := rest })
  | [] =>
    match d.events with
    | e :: rest => (some e, { d with events := rest })
    | [] => (none, d)

def hasFocus (d : Display) : Bool × Display :=
  match d.focus with
  | [] => (false, d)
  | [b] => (b, d)
  | b :: rest => (b, { d with focus := rest })

/-- The number of events that are still to be taken. -/
def pending (d : Display) : Nat := d.posted.length + d.events.length

end Display

end GraphicsBatch
