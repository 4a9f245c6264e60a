import GraphicsBatch.Number.Binary64

/-! # The shortest decimal of a floating-point number

A number stands for all that lies nearer to it than to its neighbours. The shortest decimal of it is
one with the fewest digits in that interval, and of those the nearest.
-/

namespace GraphicsBatch.Shortest

/-- The decimal `digits * 10 ^ exponent`. -/
structure Decimal where
  digits : Nat
  exponent : Int
deriving DecidableEq, Inhabited

/-- The number `m * 2 ^ e` with the ends of its interval, in quarters of its last place. -/
structure Interval where
  low : Nat
  value : Nat
  high : Nat
  /-- Whether the ends belong to it. -/
  closed : Bool
  /-- Exponent of a quarter of the last place. -/
  exponent : Int
deriving DecidableEq, Inhabited

/-- The interval of a number. Below a power of 2 the numbers lie twice as close. -/
def intervalOf (m : Nat) (e : Int) : Interval where
  low := if m = 0x10000000000000 && e ≠ -1074 then 4 * m - 1 else 4 * m - 2
  value := 4 * m
  high := 4 * m + 2
  closed := m % 2 = 0
  exponent := e - 2

/-- Factors that bring `digits * 10 ^ p` and quarters of the last place to one measure. -/
def Interval.factors (i : Interval) (p : Int) : Nat × Nat :=
  (Nat.pow 10 p.toNat * Nat.pow 2 (-i.exponent).toNat,
    Nat.pow 10 (-p).toNat * Nat.pow 2 i.exponent.toNat)

/-- Whether a decimal lies in the interval. -/
def Interval.contains (i : Interval) (d : Decimal) : Bool :=
  let (a, b) := i.factors d.exponent
  let x := d.digits * a
  if i.closed then i.low * b ≤ x && x ≤ i.high * b else i.low * b < x && x < i.high * b

/-- The nearest decimal of a power of ten that lies in the interval, halves going to even digits. -/
def Interval.onGrid (i : Interval) (p : Int) : Option Decimal :=
  let (a, b) := i.factors p
  let below := i.value * b / a
  let rest := i.value * b % a
  let lower : Decimal := ⟨below, p⟩
  let upper : Decimal := ⟨below + 1, p⟩
  match i.contains lower, i.contains upper with
  | true, true => some (if 2 * rest < a || (2 * rest = a && below % 2 = 0) then lower else upper)
  | true, false => some lower
  | false, true => some upper
  | false, false => none

/-- How many decimal digits a number has. -/
def digitCount (n : Nat) : Nat := (Nat.toDigits 10 n).length

/-- The exponent of the leading digit of the value. -/
def Interval.leading (i : Interval) : Int :=
  let num := i.value * Nat.pow 2 i.exponent.toNat
  let den := Nat.pow 2 (-i.exponent).toNat
  let guess := (digitCount num : Int) - digitCount den
  if den * Nat.pow 10 guess.toNat ≤ num * Nat.pow 10 (-guess).toNat then guess else guess - 1

/-- A number has at most this many digits in its shortest decimal. -/
def maxDigits : Nat := 17

/-- The shortest decimal of a number above 0. -/
def Interval.shortest (i : Interval) : Decimal :=
  let first := i.leading
  ((List.range maxDigits).findSome? fun (k : Nat) => i.onGrid (first - k)).getD ⟨0, 0⟩

/-! ## Layout -/

/-- The digits of a number without the zeros at its end. -/
def significant (n : Nat) : List Char :=
  (((Nat.toDigits 10 n).reverse).dropWhile (· = '0')).reverse

/-- Leading digits of these exponents are written without an exponent. -/
def plainFrom : Int := -4
def plainBelow : Int := 16

/-- A decimal as text: with a point if it is neither large nor small, else with an exponent of two or
more digits. -/
def Decimal.render (d : Decimal) : String :=
  let ds := significant d.digits
  let lead := d.exponent + digitCount d.digits - 1
  let zeros (n : Nat) : List Char := List.replicate n '0'
  if plainFrom ≤ lead ∧ lead < plainBelow then
    if lead < 0 then String.ofList (['0', '.'] ++ zeros (-lead - 1).toNat ++ ds)
    else
      let whole := ds.take (lead.toNat + 1)
      let part := ds.drop (lead.toNat + 1)
      String.ofList (whole ++ zeros (lead.toNat + 1 - whole.length) ++ ['.'] ++
        (if part.isEmpty then ['0'] else part))
  else
    let exponent := toString lead.natAbs
    String.ofList (ds.take 1 ++ (if ds.length = 1 then [] else '.' :: ds.drop 1)) ++
      (if lead < 0 then "e-" else "e+") ++ (if exponent.length < 2 then "0" else "") ++ exponent

/-- A number as text that reads back as the same number. -/
def render (x : Float) : String :=
  match Binary64.decode x with
  | none => if x == x then (if x < 0 then "-inf" else "inf") else "nan"
  | some (negative, m, e) =>
    (if negative then "-" else "") ++
      (if m = 0 then "0.0" else (intervalOf m e).shortest.render)

end GraphicsBatch.Shortest
