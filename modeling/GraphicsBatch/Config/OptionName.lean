import GraphicsBatch.Config.Sections
import GraphicsBatch.Language.Word
import GraphicsBatch.Log
import GraphicsBatch.Text.Numeral

/-! # Options and their values -/

namespace GraphicsBatch.Config

/-! ## Names -/

inductive OptionName where
  | caption
  | config
  | debug
  | dimensions
  | help
  | interface
  | logfile
  | maxStack
  | pedantic
  | version
deriving DecidableEq, Inhabited

namespace OptionName

def name : OptionName → String
  | caption => "caption"
  | config => "config"
  | debug => "debug"
  | dimensions => "dimensions"
  | help => "help"
  | interface => "interface"
  | logfile => "logfile"
  | maxStack => "max-stack"
  | pedantic => "pedantic"
  | version => "version"

/-- All options in alphabetical order. -/
def all : List OptionName :=
  [caption, config, debug, dimensions, help, interface, logfile, maxStack, pedantic, version]

def ofName? (s : String) : Option OptionName := all.find? fun o => o.name = s

end OptionName

/-! ## Values -/

inductive OptionValue where
  | none
  | text (s : String)
  | flag (b : Bool)
  | int (n : Int)
  | ints (ns : List Int)
deriving DecidableEq, Inhabited

namespace OptionValue

/-- Whether a value says nothing, so that the default holds. -/
def isBlank : OptionValue → Bool
  | none => true
  | text s => s = ""
  | ints ns => ns.isEmpty
  | _ => false

/-- A value as a configuration file shows it. -/
def render : OptionValue → String
  | none => "None"
  | text s => s
  | flag b => if b then "True" else "False"
  | int n => toString n
  | ints ns => String.intercalate "," (ns.map toString)

end OptionValue

/-- The name of the program. -/
def programName : String := "PyOriel"

def OptionName.default : OptionName → OptionValue
  | caption => .text programName
  | dimensions => .ints []
  | maxStack => .int 10000
  | debug | help | pedantic | version => .flag false
  | config | interface | logfile => .text ""

def interfaceChoices : List String := ["", "none", "graphical", "pygame"]

/-- How many numbers the dimensions have. -/
def dimensionCount : Nat := 2

/-! ## Conversion -/

/-- Work that leaves notes in the log. -/
abbrev Noting := StateM Log

def warn (message : String) : Noting Unit := modify fun log => log.add ⟨.warning, message⟩

/-- The items of a list that is separated by commas. Empty items do not count. -/
def splitItems (s : String) : List String :=
  ((s.splitToList (· == ',')).map Text.strip).filter (· ≠ "")

def trueWords : List String := ["YES", "TRUE", "ON", "1"]
def falseWords : List String := ["NO", "FALSE", "OFF", "0"]

/-- A switch. Given without a value it is on, and so it is with a value that makes no sense. -/
def toFlag (o : OptionName) (value : String) : Noting Bool := do
  let word := Text.upper value
  if value = "" ∨ word ∈ trueWords then return true
  else if word ∈ falseWords then return false
  else
    warn ("Boolean option `" ++ o.name ++ "=" ++ value ++ "` interpreted as `" ++ o.name ++ "=True`")
    return true

def toInt? (o : OptionName) (value : String) : Noting (Option Int) := do
  match Text.readInt value with
  | .ok n => return some n
  | .error _ =>
    if value ≠ "" then
      warn ("Option `" ++ o.name ++ "=" ++ value ++ "` ignored: value should be an integer")
    return none

/-- A value out of a list of choices, in lower case. -/
def toChoice (o : OptionName) (choices : List String) (value : String) : Noting String := do
  let value := Text.lower value
  if value ∈ choices then return value
  else
    warn ("Option `" ++ o.name ++ "=" ++ value ++ "` ignored; should be one of `" ++
      String.intercalate "`, `" (choices.filter (· ≠ "")) ++ "`")
    return ""

/-- A row of integers of fixed length. -/
def toInts (o : OptionName) (count : Nat) (value : String) : Noting (List Int) := do
  let items ← (splitItems value).mapM (toInt? o)
  let ns := items.filterMap id
  if ns.isEmpty ∨ ns.length = count then return ns
  else
    warn ("Option `" ++ o.name ++ "=" ++ value ++ "` ignored: should have " ++ toString count ++
      " elements")
    return []

/-- Converts the text of an option to a value of its type. -/
def convert (o : OptionName) (raw : Option String) : Noting OptionValue := do
  let value := raw.getD ""
  match o with
  | .debug | .help | .pedantic | .version => return .flag (← toFlag o value)
  | .maxStack => return (← toInt? o value).elim .none .int
  | .dimensions => return .ints (← toInts o dimensionCount value)
  | .interface => return .text (← toChoice o interfaceChoices value)
  | .caption | .config | .logfile => return .text value

end GraphicsBatch.Config
