import GraphicsBatch.Number.Binary64

/-! # Numbers with a fixed number of places

Below a thousand million a number has six places; above, nine places and an exponent of ten. Halves
go to even digits, and a zero has no sign.
-/

namespace GraphicsBatch.Fixed

/-- A quotient rounded to the nearest integer, halves to even. -/
def roundDiv (n d : Nat) : Nat :=
  let q := n / d
  let r := n % d
  if 2 * r < d || (2 * r == d && q % 2 == 0) then q else q + 1

def padded (width n : Nat) : String :=
  let digits := toString n
  String.ofList (List.replicate (width - digits.length) '0') ++ digits

/-- A count of parts of a power of ten, as whole and places. -/
def pointed (places n : Nat) : String :=
  let unit := Nat.pow 10 places
  toString (n / unit) ++ "." ++ padded places (n % unit)

/-- Nine places and an exponent. -/
def exponential (num den : Nat) : String :=
  let k := (toString (num / den)).length - 1
  let q := roundDiv num (den * Nat.pow 10 (k - 9))
  if q = Nat.pow 10 10 then pointed 9 (Nat.pow 10 9) ++ "e+" ++ padded 2 (k + 1)
  else pointed 9 q ++ "e+" ++ padded 2 k

def render (x : Float) : String :=
  match Binary64.decode x with
  | none => if x != x then "nan" else if x < 0 then "-inf" else "inf"
  | some (negative, m, e) =>
    let num := m * Nat.pow 2 e.toNat
    let den := Nat.pow 2 (-e).toNat
    let sign := if negative then "-" else ""
    if num < Nat.pow 10 9 * den then
      let q := roundDiv (num * Nat.pow 10 6) den
      (if q = 0 then "" else sign) ++ pointed 6 q
    else sign ++ exponential num den

end GraphicsBatch.Fixed
