import GraphicsBatch.Text.Position
import GraphicsBatch.Text.Numeral

/-! # Errors of a program

An error has a number, a text for that number, a detail and, once known, a place in the source.
-/

namespace GraphicsBatch

/-! ## Program errors -/

inductive ErrorKind where
  /-- An error of no particular kind; only a host reports it. -/
  | general
  | malformed
  | undefinedLabel
  | returnWithoutGosub
  | divisionByZero
  | overflow
  | outOfStack
  | invalidKey
  | host
deriving DecidableEq, Inhabited

def ErrorKind.number : ErrorKind → Option Int
  | general => none
  | malformed => some 1
  | undefinedLabel => some 2
  | returnWithoutGosub => some 3
  | divisionByZero => some 4
  | overflow => some 5
  | outOfStack => some 6
  | invalidKey => some 7
  | host => some 8

structure ProgramError where
  kind : ErrorKind
  detail : String := ""
  pos : Option Position := none
  number : Option Int := kind.number
deriving DecidableEq, Inhabited

namespace ProgramError

/-- The fixed text of an error number. -/
def textOf : Option Int → String
  | some 1 => "Syntax error"
  | some 2 => "Undefined label"
  | some 3 => "Return without Gosub"
  | some 4 => "Division by zero"
  | some 5 => "Overflow"
  | some 6 => "Out of stack space"
  | some 7 => "Invalid virtual key"
  | some 8 => "Host error"
  | _ => "Unprintable error"

def text (e : ProgramError) : String := textOf e.number

/-- The message without its place. -/
def message (e : ProgramError) : String :=
  if e.detail = "" then e.text else e.text ++ ": " ++ e.detail

def render (e : ProgramError) : String :=
  match e.pos with
  | some p => p.render ++ ": " ++ e.message
  | none => e.message

/-- Gives an error a place, unless it has one. -/
def locate (e : ProgramError) (p : Position) : ProgramError :=
  { e with pos := e.pos.or (some p) }

end ProgramError

/-! ## Malformed source -/

/-- What is wrong with a source text. -/
inductive Malformed where
  | unterminatedComment
  | unterminatedText
  | unexpected (found : String)
  | unknownCommand (name : String)
  | expected (what : String)
  | reservedLabel (name : String)
  | labelNotAtLineStart (name : String)
  | duplicateLabel (name : String)
  | integerTooLarge (digits : String)
  | tooManyArguments (command : String)
  | missingArgument
  | unmatchedToken (name : String)
  | wrongType (argument : String)
  | invalidPhysicalKey (text : String)
deriving DecidableEq, Inhabited

def Malformed.detail : Malformed → String
  | unterminatedComment => "unterminated comment"
  | unterminatedText => "unterminated string"
  | unexpected found => "unexpected '" ++ found ++ "'"
  | unknownCommand name => "unknown command '" ++ name ++ "'"
  | expected what => "expected " ++ what
  | reservedLabel name => "reserved word '" ++ name ++ "' used as label"
  | labelNotAtLineStart name => "label '" ++ name ++ "' is not at line start"
  | duplicateLabel name => "duplicate label '" ++ name ++ "'"
  | integerTooLarge digits => "failed to parse integer '" ++ digits ++ "'"
  | tooManyArguments command => "command '" ++ command ++ "' has too many arguments"
  | missingArgument => "expected another argument"
  | unmatchedToken name => "failed to match token '" ++ name ++ "'"
  | wrongType argument => "argument '" ++ argument ++ "' has incorrect type"
  | invalidPhysicalKey text => "physical key '\"" ++ text ++ "\"' is invalid"

def Malformed.toError (m : Malformed) (pos : Position) : ProgramError :=
  { kind := .malformed, detail := m.detail, pos := some pos }

/-- Why a source text is no program. -/
inductive ParseFault where
  | malformed (cause : Malformed) (pos : Position)
  | undefinedLabel (name : String) (pos : Position)
  /-- A numeral of more digits than are ever converted; this has no place in the source. -/
  | longNumeral (digits : Nat)
deriving DecidableEq, Inhabited

/-- The error of the program, unless there is no place for it. -/
def ParseFault.toError? : ParseFault → Option ProgramError
  | malformed m pos => some (m.toError pos)
  | undefinedLabel name pos => some { kind := .undefinedLabel, detail := name, pos := some pos }
  | longNumeral _ => none

end GraphicsBatch
