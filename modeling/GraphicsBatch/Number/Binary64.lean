/-! # Floating-point numbers as exact fractions

A finite number is `m * 2 ^ e` for integers `m` and `e`. Rounding to integers is exact, whatever the
size of the result, and an integer goes to the nearest number, halves to the even one.
-/

namespace GraphicsBatch

/-- Why a number has no counterpart of the other kind. -/
inductive NumberFault where
  /-- An integer beyond all floating-point numbers. -/
  | tooLarge
  | infinite
  /-- A result that is no number at all. -/
  | undefined
deriving DecidableEq, Inhabited

def NumberFault.message : NumberFault → String
  | tooLarge => "int too large to convert to float"
  | infinite => "cannot convert float infinity to integer"
  | undefined => "cannot convert float NaN to integer"

namespace Binary64

/-- Sign, significand and exponent of a finite number; `none` for infinities and what is no number. -/
def decode (x : Float) : Option (Bool × Nat × Int) :=
  let bits := x.toBits.toNat
  let negative : Bool := bits / 0x8000000000000000 = 1
  let exponent : Nat := bits / 0x10000000000000 % 0x800
  let fraction : Nat := bits % 0x10000000000000
  if exponent = 2047 then none
  else if exponent = 0 then some (negative, fraction, -1074)
  else some (negative, 0x10000000000000 + fraction, (exponent : Int) - 1075)

/-! ## To integers -/

/-- Quotient and remainder of `m * 2 ^ e` by 1; the remainder counts parts of a power of 2. -/
def split (m : Nat) (e : Int) : Nat × Nat :=
  match e with
  | .ofNat k => (m * Nat.pow 2 k, 0)
  | .negSucc k =>
    let d := Nat.pow 2 (k + 1)
    (m / d, m % d)

/-- What is wrong with a number that is not finite. -/
def faultOf (x : Float) : NumberFault := if x == x then .infinite else .undefined

/-- The whole part of a number, rounded toward zero. -/
def truncate (x : Float) : Except NumberFault Int :=
  match decode x with
  | none => .error (faultOf x)
  | some (negative, m, e) =>
    let (q, _) := split m e
    .ok (if negative then -(q : Int) else q)

/-- The greatest integer not above a number. -/
def floor (x : Float) : Except NumberFault Int :=
  match decode x with
  | none => .error (faultOf x)
  | some (negative, m, e) =>
    let (q, r) := split m e
    .ok (if negative then -(q : Int) - (if r = 0 then 0 else 1) else q)

/-- The least integer not below a number. -/
def ceil (x : Float) : Except NumberFault Int := (floor (-x)).map fun n => -n

/-- The integer that a number is, if it is one. -/
def toInt? (x : Float) : Option Int :=
  match decode x with
  | none => none
  | some (negative, m, e) =>
    let (q, r) := split m e
    if r = 0 then some (if negative then -(q : Int) else q) else none

/-- The size of a number as a count, 0 if it has none. -/
def toCount (x : Float) : Nat :=
  match truncate x with
  | .ok n => n.toNat
  | .error _ => 0

def isFinite (x : Float) : Bool := (decode x).isSome

/-! ## Comparison with integers -/

/-- Whether a number is at least some integer. -/
def atLeast (lower : Int) (x : Float) : Bool :=
  match floor x with
  | .ok n => lower ≤ n
  | .error _ => x > 0

/-- Whether a number is at most some integer. -/
def atMost (upper : Int) (x : Float) : Bool :=
  match ceil x with
  | .ok n => n ≤ upper
  | .error _ => x < 0

/-! ## From integers -/

/-- A significand of at most 53 bits and a power of 2 that come nearest to a number, halves going to
the even significand. -/
def nearest (n : Nat) : Nat × Nat :=
  let e := n.log2 - 52
  let d := Nat.pow 2 e
  let q := n / d
  let r := n % d
  (if d < 2 * r || (2 * r = d && q % 2 = 1) then q + 1 else q, e)

/-- A number doubled again and again. -/
def doubled : (times : Nat) → Float → Float
  | 0, x => x
  | times + 1, x => doubled times (x + x)

/-- The number nearest to a natural number, unless that is beyond all of them. -/
def ofNat? (n : Nat) : Option Float :=
  let (m, e) := nearest n
  if Nat.pow 2 1024 ≤ m * Nat.pow 2 e then none else some (doubled e m.toUInt64.toFloat)

/-- The number nearest to an integer. -/
def ofInt (n : Int) : Except NumberFault Float :=
  match ofNat? n.natAbs with
  | some x => .ok (if n < 0 then -x else x)
  | none => .error .tooLarge

end Binary64

end GraphicsBatch
