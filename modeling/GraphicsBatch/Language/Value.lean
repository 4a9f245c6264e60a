import GraphicsBatch.Language.Word
import GraphicsBatch.Text.Quoted

/-! # Values, operands and expressions -/

namespace GraphicsBatch

/-- A key named by the character it types, with or without Ctrl. -/
structure PhysicalKey where
  char : Char
  ctrl : Bool
deriving DecidableEq, Inhabited

/-- An argument of a command. -/
inductive Value where
  /-- The lack of a value. It stands in no program, but a host may be handed it. -/
  | nothing
  | int (n : Int)
  | text (s : String)
  | var (name : String)
  | token (name : String)
  | label (name : String)
  | key (k : PhysicalKey)
deriving DecidableEq, Inhabited

namespace Value

/-- A value as it is written in source. -/
def render : Value → String
  | nothing => ""
  | int n => toString n
  | text s => "\"" ++ s ++ "\""
  | var name | token name | label name => name
  | key k => "\"" ++ (if k.ctrl then "^" else "") ++ k.char.toString ++ "\""

/-- The name of something that is named. -/
def name? : Value → Option String
  | var name | token name | label name => some name
  | _ => none

/-- What a value counts as among keys: names count alike, whatever they name. -/
def asKey : Value → Value
  | token name | label name => var name
  | v => v

/-! ### Values as messages show them -/

def describe : Value → String
  | nothing => "None"
  | int n => toString n
  | text s => Text.quoted s
  | var name => "VarRef(name=" ++ Text.quoted name ++ ")"
  | token name => "Token(name=" ++ Text.quoted name ++ ")"
  | label name => "LabelRef(name=" ++ Text.quoted name ++ ")"
  | key k =>
    "PhysicalKey(char=" ++ Text.quoted k.char.toString ++ ", ctrl=" ++
      (if k.ctrl then "True" else "False") ++ ")"

/-- Like `describe`, but a text is shown as it is. -/
def plainText : Value → String
  | text s => s
  | v => v.describe

/-! ### Values in place of a text -/

/-- What a value is made of, if it is made of parts: the characters of a text, the name of something
named, the character and the Ctrl state of a key. Only texts among the parts have a length. -/
def parts? : Value → Option (List Value)
  | text s => some (s.toList.map fun c => .text c.toString)
  | var name | token name | label name => some [.text name]
  | key k => some [.text k.char.toString, .nothing]
  | _ => none

/-- How many parts a value has. -/
def length? (v : Value) : Option Nat := v.parts?.map List.length

end Value

/-- What an argument of a command stands for. -/
inductive Kind where
  | integer | string | variable | label | key | token
deriving DecidableEq, Inhabited

structure Argument where
  kind : Kind
  value : Value
deriving DecidableEq, Inhabited

/-- An operand of a comparison or of an assignment. -/
inductive Operand where
  | literal (n : Nat)
  | var (name : String)
deriving DecidableEq, Inhabited

def Operand.toValue : Operand → Value
  | literal n => .int n
  | var name => .var name

/-! ## Signs -/

inductive Comparison where
  | eq | ne | lt | le | gt | ge
deriving DecidableEq, Inhabited

def Comparison.sign : Comparison → String
  | eq => "="
  | ne => "<>"
  | lt => "<"
  | le => "<="
  | gt => ">"
  | ge => ">="

def Comparison.holds : Comparison → Int → Int → Bool
  | eq, a, b => a = b
  | ne, a, b => a ≠ b
  | lt, a, b => a < b
  | le, a, b => a ≤ b
  | gt, a, b => b < a
  | ge, a, b => b ≤ a

inductive Operator where
  | plus | minus | times | divide
deriving DecidableEq, Inhabited

def Operator.sign : Operator → Char
  | plus => '+'
  | minus => '-'
  | times => '*'
  | divide => '/'

def Operator.all : List Operator := [plus, minus, times, divide]

def Operator.ofSign? (c : Char) : Option Operator := all.find? fun o => o.sign = c

/-- The value that an assignment stores: an operand, or two of them and an operator. -/
structure Expr where
  first : Operand
  more : Option (Operator × Operand)
deriving DecidableEq, Inhabited

def Expr.render (e : Expr) : String :=
  match e.more with
  | none => e.first.toValue.render
  | some (op, second) => e.first.toValue.render ++ op.sign.toString ++ second.toValue.render

end GraphicsBatch
