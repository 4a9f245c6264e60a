import GraphicsBatch.Language.Value
import GraphicsBatch.Number.Binary64

/-! # Outlines of shapes

Shapes are drawn as rows of points. Curves are traced in steps of a tenth of a radian.
-/

namespace GraphicsBatch

structure Point where
  x : Float
  y : Float
deriving Inhabited

namespace Outline

def pi : Float := 3.141592653589793

def tau : Float := 2 * pi

def arcStep : Float := 0.1

/-- The smaller of two numbers, the first if they do not compare. -/
def least (a b : Float) : Float := if b < a then b else a

/-- The larger of two numbers, the first if they do not compare. -/
def greatest (a b : Float) : Float := if b > a then b else a

/-! ## Curves -/

/-- The point of an ellipse at an angle. -/
def onEllipse (cx cy rx ry angle : Float) : Point :=
  ⟨cx + rx * angle.cos, cy + ry * angle.sin⟩

/-- The angles from `theta` down to `stop`, which is not among them. -/
def anglesFrom (stop : Float) : (fuel : Nat) → Float → List Float
  | 0, _ => []
  | fuel + 1, theta =>
    if theta > stop then theta :: anglesFrom stop fuel (theta - arcStep) else []

/-- At least as many steps as lie between two angles. Far from zero a step is rounded, but unless it is
lost altogether more than half of it remains. -/
def stepCount (theta stop : Float) : Nat :=
  2 * Binary64.toCount ((theta - stop) / arcStep) + 3

/-- Points of an elliptic arc from the angle `start` down to `stop`. -/
def arc (cx cy rx ry start stop : Float) : List Point :=
  let theta := if start > stop then start else start + tau
  let pointAt := onEllipse cx cy rx ry
  [pointAt start] ++ (anglesFrom stop (stepCount theta stop) theta).map pointAt ++ [pointAt stop]

/-- The arc between two angles, which must not be infinite. -/
def arc? (cx cy rx ry start stop : Float) : Option (List Point) :=
  if start.isInf || stop.isInf then none else some (arc cx cy rx ry start stop)

/-- The arc of the ellipse in a rectangle, from the ray through one point to the ray through another,
after its centre. A flat ellipse is a line. -/
def boundedArc (x1 y1 x2 y2 x3 y3 x4 y4 : Float) : Point × List Point :=
  let cx := (x1 + x2) / 2
  let cy := (y1 + y2) / 2
  let rx := (x2 - x1) / 2
  let ry := (y2 - y1) / 2
  if rx == 0 || ry == 0 then (⟨cx, cy⟩, [⟨x1, y1⟩, ⟨x2, y2⟩])
  else
    let start := Float.atan2 ((y3 - cy) / ry) ((x3 - cx) / rx)
    let stop := Float.atan2 ((y4 - cy) / ry) ((x4 - cx) / rx)
    (⟨cx, cy⟩, arc cx cy rx ry start stop)

/-- The ellipse in a rectangle. -/
def ellipse (x1 y1 x2 y2 : Float) : List Point :=
  arc ((x1 + x2) / 2) ((y1 + y2) / 2) ((x2 - x1) / 2) ((y2 - y1) / 2) tau 0

/-! ## Rectangles -/

def rectangle (x1 y1 x2 y2 : Float) : List Point :=
  [⟨x1, y1⟩, ⟨x2, y1⟩, ⟨x2, y2⟩, ⟨x1, y2⟩, ⟨x1, y1⟩]

/-- A rectangle with rounded corners, which are never larger than the rectangle. -/
def roundRectangle (x1 y1 x2 y2 width height : Float) : List Point :=
  let left := least x1 x2
  let right := greatest x1 x2
  let top := least y1 y2
  let bottom := greatest y1 y2
  let rx := least width (right - left) / 2
  let ry := least height (bottom - top) / 2
  let half := pi / 2
  let points :=
    arc (left + rx) (top + ry) rx ry (3 * half) (2 * half) ++
    arc (left + rx) (bottom - ry) rx ry (2 * half) half ++
    arc (right - rx) (bottom - ry) rx ry half 0 ++
    arc (right - rx) (top + ry) rx ry 0 (-half)
  points ++ points.take 1

/-! ## Dashes -/

/-- The length of a segment. Scaling by the larger side keeps the squares in range. -/
def distance (dx dy : Float) : Float :=
  let a := greatest dx.abs dy.abs
  let b := least dx.abs dy.abs
  if a == 0 || !Binary64.isFinite a then a + b
  else if 1e150 < a || a < 1e-150 then a * (1 + (b / a) * (b / a)).sqrt
  else (dx * dx + dy * dy).sqrt

/-- Where the drawing of dashes stands. -/
structure Dashing where
  /-- Finished segments, latest first. -/
  segments : List (List Point) := []
  /-- The segment at hand, latest point first. -/
  current : List Point
  /-- Whether the pen is down. -/
  visible : Bool := true
  /-- Index in the pattern and what is left of that piece. -/
  index : Nat := 0
  left : Float

/-- Ends the piece at hand at a point and takes up the next one. -/
def Dashing.turn (d : Dashing) (pattern : List Float) (p : Point) : Dashing :=
  let index := (d.index + 1) % pattern.length
  { segments := if d.visible then (p :: d.current).reverse :: d.segments else d.segments
    current := [p]
    visible := !d.visible
    index
    left := pattern.getD index 0 }

/-- Goes along the line from `a` to `b`, of which `done` is behind. -/
def Dashing.along (pattern : List Float) (a b : Point) (length : Float) :
    (fuel : Nat) → Float → Dashing → Float × Dashing
  | 0, done, d => (done, d)
  | fuel + 1, done, d =>
    if length - done > d.left then
      let done' := done + d.left
      let p : Point := ⟨a.x + (b.x - a.x) * done' / length, a.y + (b.y - a.y) * done' / length⟩
      along pattern a b length fuel done' (d.turn pattern p)
    else (done, d)

/-- At least as many pieces as a line of some length can have: each round of the pattern takes its sum,
the first round may be short of a piece, and there is room for rounding. -/
def pieceCount (pattern : List Float) (length : Float) : Nat :=
  let sum := pattern.foldl (· + ·) 0
  let span := pattern.foldl (fun s x => s + x.abs) 0
  2 * (Binary64.toCount ((length + span) / sum) + 3) * pattern.length

def Dashing.line (pattern : List Float) (d : Dashing) (a b : Point) : Dashing :=
  let length := distance (b.x - a.x) (b.y - a.y)
  let (done, d) := along pattern a b length (pieceCount pattern length) 0 d
  let current := if d.visible then b :: d.current else [b]
  { d with current, left := d.left - (length - done) }

/-- The visible parts of a line of points, for the lengths of dashes and gaps in turn. With no pattern
all of it is visible. -/
def dashes (points : List Point) (pattern : List Float) : List (List Point) :=
  match pattern, points with
  | [], _ => [points]
  | _, [] => []
  | first :: _, p :: rest =>
    let start : Dashing := { current := [p], left := first }
    let (d, _) := rest.foldl (fun (d, a) b => (d.line pattern a b, b)) (start, p)
    let segments := if d.visible && 1 < d.current.length then d.current.reverse :: d.segments
      else d.segments
    segments.reverse

/-! ## Pens and scales -/

/-- Lengths of dashes and gaps of a pen style, in pixels. -/
def penDashes : List (String × List Float) := [
  ("SOLID", []),
  ("DASH", [24, 8]),
  ("DOT", [4, 4]),
  ("DASHDOT", [12, 6, 3, 6]),
  ("DASHDOTDOT", [12, 3, 3, 3, 3, 3])]

/-- Pixels in a millimetre, at 96 to the inch. -/
def metricScale : Float := 96 / 25.4

/-- Pixels in a unit of a coordinate system. -/
def programScale (coordinates : Value) : Float :=
  if coordinates = .text "METRIC" then metricScale else 1

end Outline

end GraphicsBatch
