import GraphicsBatch.Text.Blank
import GraphicsBatch.Text.Quoted

/-! # Integers written as text

White space around the number is dropped. One sign may come first; then digits of any script,
single underscores allowed between them. Numerals of more than 4300 digits are neither read nor
written.
-/

namespace GraphicsBatch.Text

/-- The zeros of the scripts that write numbers with ten decimal digits. -/
def zeroDigits : List Nat := [
  0x30, 0x660, 0x6f0, 0x7c0, 0x966, 0x9e6, 0xa66, 0xae6, 0xb66, 0xbe6, 0xc66, 0xce6, 0xd66, 0xde6,
  0xe50, 0xed0, 0xf20, 0x1040, 0x1090, 0x17e0, 0x1810, 0x1946, 0x19d0, 0x1a80, 0x1a90, 0x1b50,
  0x1bb0, 0x1c40, 0x1c50, 0xa620, 0xa8d0, 0xa900, 0xa9d0, 0xa9f0, 0xaa50, 0xabf0, 0xff10,
  0x104a0, 0x10d30, 0x11066, 0x110f0, 0x11136, 0x111d0, 0x112f0, 0x11450, 0x114d0, 0x11650,
  0x116c0, 0x11730, 0x118e0, 0x11950, 0x11c50, 0x11d50, 0x11da0, 0x16a60, 0x16ac0, 0x16b50,
  0x1d7ce, 0x1d7d8, 0x1d7e2, 0x1d7ec, 0x1d7f6, 0x1e140, 0x1e2f0, 0x1e950, 0x1fbf0]

def digitValue? (c : Char) : Option Nat :=
  (zeroDigits.find? fun z => z ≤ c.toNat && c.toNat < z + 10).map fun z => c.toNat - z

/-- The number that a run of digit values writes. -/
def ofDigits (ds : List Nat) : Nat := ds.foldl (fun n d => 10 * n + d) 0

/-- Numerals may have this many digits, leading zeros counted. -/
def digitLimit : Nat := 4300

inductive NumeralFault where
  | malformed (text : String)
  | tooLong (digits : Nat)
  /-- A number that is too long to be written. -/
  | unwritable
deriving DecidableEq, Inhabited

/-- Of a malformed numeral a message shows this many characters, quote included. -/
def shownLimit : Nat := 200

def NumeralFault.message : NumeralFault → String
  | .malformed text =>
    "invalid literal for int() with base 10: " ++
      String.ofList ((quoted text).toList.take shownLimit)
  | .unwritable =>
    "Exceeds the limit (4300 digits) for integer string conversion; " ++
      "use sys.set_int_max_str_digits() to increase the limit"
  | .tooLong n =>
    "Exceeds the limit (4300 digits) for integer string conversion: value has " ++ toString n ++
      " digits; use sys.set_int_max_str_digits() to increase the limit"

/-- White space around a numeral: the separator controls of ASCII do not count. -/
def isNumeralSpace (c : Char) : Bool := isSpace c && !(28 ≤ c.toNat && c.toNat ≤ 31)

/-- Reads digits from the front, single underscores between them. `none` if an underscore is out of
place; otherwise the digits and what follows them. -/
def takeDigits (afterDigit : Bool) : List Char → Option (List Nat × List Char)
  | [] => some ([], [])
  | '_' :: cs =>
    match cs with
    | d :: _ => if afterDigit && (digitValue? d).isSome then takeDigits false cs else none
    | [] => none
  | c :: cs =>
    match digitValue? c with
    | some d => (takeDigits true cs).map fun (ds, rest) => (d :: ds, rest)
    | none => some ([], c :: cs)

/-- Reads an integer. -/
def readInt (s : String) : Except NumeralFault Int :=
  let cs := trimRight isNumeralSpace (trimLeft isNumeralSpace s.toList)
  let (negative, digits) :=
    match cs with
    | '-' :: ds => (true, ds)
    | '+' :: ds => (false, ds)
    | ds => (false, ds)
  match takeDigits false digits with
  | none => .error (.malformed s)
  | some (ds, rest) =>
    if digitLimit < ds.length then .error (.tooLong ds.length)
    else if ds.isEmpty || !rest.isEmpty then .error (.malformed s)
    else .ok (if negative then -(ofDigits ds : Int) else ofDigits ds)

/-- Writes an integer. -/
def writeInt (n : Int) : Except NumeralFault String :=
  if digitLimit < (toString n.natAbs).length then .error .unwritable else .ok (toString n)

/-- An integer that can be written, with its text. -/
structure Numeral where
  value : Int
  text : String
  written : writeInt value = .ok text
deriving DecidableEq

theorem writeInt_ofNat {n : Nat} (h : (toString n).length ≤ digitLimit) :
    writeInt n = .ok (toString (n : Int)) := by
  rw [writeInt, Int.natAbs_natCast, if_neg (Nat.not_lt.mpr h)]

namespace Numeral

def ofNat (n : Nat) (h : (toString n).length ≤ digitLimit) : Numeral :=
  ⟨n, toString (n : Int), writeInt_ofNat h⟩

instance : Inhabited Numeral := ⟨ofNat 0 (by decide)⟩

def ofInt? (n : Int) : Option Numeral :=
  match h : writeInt n with
  | .ok text => some ⟨n, text, h⟩
  | .error _ => none

end Numeral

end GraphicsBatch.Text
