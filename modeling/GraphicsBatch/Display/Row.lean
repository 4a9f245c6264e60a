import GraphicsBatch.Display
import GraphicsBatch.Number.Fixed

/-! # Calls as rows

A call is written as its name and its parts. Whole pixels stay integers; points are written with their
places.
-/

namespace GraphicsBatch

inductive Part where
  | none
  | int (n : Int)
  | flag (b : Bool)
  | text (s : String)
  | list (parts : List Part)
deriving Inhabited

namespace Part

def nat (n : Nat) : Part := .int n

def pair (x y : Int) : Part := .list [.int x, .int y]

def pixel (p : Pixel) : Part := pair p.x p.y

def real (x : Float) : Part := .text (Fixed.render x)

def point (p : Point) : Part := .list [.real p.x, .real p.y]

def points (ps : List Point) : Part := .list (ps.map point)

def colour (c : Colour) : Part := .list [.int c.r, .int c.g, .int c.b]

def ink (i : Ink) : Part :=
  .list ([.int i.colour.r, .int i.colour.g, .int i.colour.b] ++ i.alpha.toList.map .int)

/-- A value as a part; one that is made of several parts becomes a list. -/
def ofValue : Value → Part
  | .nothing => .none
  | .int n => .int n
  | .text s => .text s
  | .var name | .token name | .label name => .list [.text name]
  | .key k => .list [.text k.char.toString, .flag k.ctrl]

def ofOption {α : Type} (f : α → Part) : Option α → Part
  | some a => f a
  | Option.none => .none

end Part

def Call.row : Call → List Part
  | start => [.text "init"]
  | stop => [.text "quit"]
  | closeWindow => [.text "display_quit"]
  | flip => [.text "flip"]
  | iconify => [.text "iconify"]
  | post => [.text "post"]
  | setCaption t => [.text "set_caption", .ofValue t]
  | setKeyRepeat delay interval => [.text "set_repeat", .int delay, .int interval]
  | setMode w h => [.text "set_mode", .pair w h, .flag true]
  | wait t => [.text "wait", .int t]
  | surface s alpha => [.text "surface", .nat s.id, .pair s.width s.height, .flag alpha]
  | fill t i => [.text "fill", .nat t, .ink i]
  | blit t s spot multiply =>
    [.text "blit", .nat t, .nat s,
      match spot with
      | .pixel p => .pixel p
      | .point p => .point p,
      if multiply then .text "MULT" else .none]
  | line t c a b => [.text "line", .nat t, .colour c, .pixel a, .pixel b]
  | lines t c ps w => [.text "lines", .nat t, .colour c, .flag false, .points ps, .int w]
  | polygon t i ps => [.text "polygon", .nat t, .ink i, .points ps]
  | rect t c r w =>
    [.text "rect", .nat t, .colour c, .list [.int r.left, .int r.top, .int r.width, .int r.height],
      .int w]
  | font id name h bold italic =>
    [.text "font", .nat id, .ofValue name, .int h, .flag bold, .flag italic]
  | underline f on => [.text "underline", .nat f, .flag on]
  | render s f t c bg =>
    [.text "render", .nat s, .nat f, .ofValue t, .colour c, .ofOption .colour bg]
  | mask s c => [.text "mask", .nat s, .colour c, .ink ⟨⟨1, 1, 1⟩, some 255⟩]
  | maskInvert => [.text "mask_invert"]
  | maskGet p => [.text "mask_get", .pixel p]
  | maskComponent p => [.text "mask_component", .pixel p]
  | maskSurface s => [.text "mask_surface", .nat s, .ink (.solid .white), .ink .clear]
  | load s name => [.text "load", .nat s, .ofValue name]
  | scale s src w h => [.text "scale", .nat s, .nat src, .pair w h]
  | mirror s src fx fy => [.text "mirror", .nat s, .nat src, .flag fx, .flag fy]
  | mixerInit rate size channels => [.text "mixer_init", .int rate, .int size, .int channels]
  | play bytes => [.text "play", .nat bytes]

end GraphicsBatch
