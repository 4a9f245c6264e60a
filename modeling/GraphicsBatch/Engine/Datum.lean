import GraphicsBatch.Language.Value
import GraphicsBatch.Number.Shortest
import GraphicsBatch.Text.Numeral

/-! # Data from outside

Hosts and callers hand in plain data: a button number, the parts of an event, a value for a variable.
Nobody has checked them. Where an integer is wanted other data are converted, and where something is
looked up they are compared as they are.
-/

namespace GraphicsBatch

inductive Datum where
  | none
  | flag (b : Bool)
  | int (n : Int)
  | real (x : Float)
  | text (s : String)
  | list (items : List Datum)
  | table (entries : List (String × Datum))
deriving Inhabited

/-- Why a datum is no integer. -/
inductive IntFault where
  | numeral (f : Text.NumeralFault)
  | number (f : NumberFault)
  /-- A datum of another kind. -/
  | notANumber
deriving DecidableEq, Inhabited

/-- What a datum is looked up as. -/
inductive Lookup where
  | value (v : Value)
  /-- It is equal to no value. -/
  | nowhere
  /-- It cannot be looked up at all. -/
  | unfit
deriving DecidableEq, Inhabited

/-- A datum of a kind that does not fit its place. -/
structure Misfit where
deriving DecidableEq, Inhabited

namespace Datum

def ofFlag (b : Bool) : Int := if b then 1 else 0

/-- Nothing, zero and all that is empty count as false. -/
def isTrue : Datum → Bool
  | none => false
  | flag b => b
  | int n => n ≠ 0
  | real x => x != 0
  | text s => s ≠ ""
  | list items => !items.isEmpty
  | table entries => !entries.isEmpty

/-- The integer a datum stands for: fractions are cut off and texts are read as numerals. -/
def toInt : Datum → Except IntFault Int
  | flag b => .ok (ofFlag b)
  | int n => .ok n
  | real x => (Binary64.truncate x).mapError .number
  | text s => (Text.readInt s).mapError .numeral
  | none | list _ | table _ => .error .notANumber

/-- The whole part of a number. -/
def whole (d : Datum) : Int := d.toInt.toOption.getD 0

/-- Whether a number lies between two integers, which are in it. -/
def within (lower upper : Int) : Datum → Except Misfit Bool
  | flag b => .ok (lower ≤ ofFlag b && ofFlag b ≤ upper)
  | int n => .ok (lower ≤ n && n ≤ upper)
  | real x => .ok (Binary64.atLeast lower x && Binary64.atMost upper x)
  | _ => .error {}

/-- Numbers are looked up by what they amount to. -/
def lookup : Datum → Lookup
  | none => .value .nothing
  | flag b => .value (.int (ofFlag b))
  | int n => .value (.int n)
  | real x =>
    match Binary64.toInt? x with
    | some n => .value (.int n)
    | Option.none => .nowhere
  | text s => .value (.text s)
  | list _ | table _ => .unfit

/-! ## Data as messages show them -/

mutual

def describe : Datum → String
  | none => "None"
  | flag b => if b then "True" else "False"
  | int n => toString n
  | real x => Shortest.render x
  | text s => Text.quoted s
  | list items => "[" ++ String.intercalate ", " (describeItems items) ++ "]"
  | table entries => "\x7b" ++ String.intercalate ", " (describeEntries entries) ++ "\x7d"

def describeItems : List Datum → List String
  | [] => []
  | d :: ds => d.describe :: describeItems ds

def describeEntries : List (String × Datum) → List String
  | [] => []
  | (name, d) :: rest => (Text.quoted name ++ ": " ++ d.describe) :: describeEntries rest

end

/-- Like `describe`, but a text is shown as it is. -/
def plainText : Datum → String
  | text s => s
  | d => d.describe

/-- Data in a row; a single one keeps its comma. -/
def describeRow : List Datum → String
  | [d] => "(" ++ d.describe ++ ",)"
  | ds => "(" ++ String.intercalate ", " (describeItems ds) ++ ")"

end Datum

end GraphicsBatch
