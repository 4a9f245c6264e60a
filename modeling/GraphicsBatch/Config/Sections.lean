import GraphicsBatch.Engine.Variables
import GraphicsBatch.Text.Blank
import GraphicsBatch.Text.Encoding
import GraphicsBatch.Text.Quoted

/-! # Configuration text

A configuration file has sections with options. An option may have a value, which may go on over
several lines, or none at all. The section `DEFAULT` supplies options to all others.
-/

namespace GraphicsBatch.Config

/-- Options by name, in order. An option without a value has `none`. -/
abbrev Table := List (String × Option String)

/-- The options of one table, overridden by another. New ones are added at the end. -/
def Table.update (t u : Table) : Table := u.foldl (fun t (k, v) => upsert k v t) t

abbrev Sections := List (String × Table)

def Sections.update (s t : Sections) : Sections := t.foldl (fun s (k, v) => upsert k v s) s

/-! ## Faults -/

inductive Fault where
  /-- An option before the first header. -/
  | noHeader (line : Nat) (text : String)
  | duplicateSection (line : Nat) (name : String)
  | duplicateOption (line : Nat) (sectionName name : String)
  /-- Options without a name. -/
  | nameless (lines : List (Nat × String))
  /-- A line that goes on with the value of an option that has none. -/
  | continuedNothing
deriving DecidableEq, Inhabited

namespace Fault

/-- How a source without a name is called. -/
def source : String := "'<???>'"

/-- A line number, at least two characters wide. -/
def lineLabel (n : Nat) : String := "[line " ++ (if n < 10 then " " else "") ++ toString n ++ "]"

def message : Fault → String
  | noHeader n text =>
    "File contains no section headers.\nfile: " ++ source ++ ", line: " ++ toString n ++ "\n" ++
      Text.quoted text
  | duplicateSection n name =>
    "While reading from " ++ source ++ " " ++ lineLabel n ++ ": section " ++ Text.quoted name ++
      " already exists"
  | duplicateOption n sectionName name =>
    "While reading from " ++ source ++ " " ++ lineLabel n ++ ": option " ++ Text.quoted name ++
      " in section " ++ Text.quoted sectionName ++ " already exists"
  | nameless lines =>
    "Source contains parsing errors: " ++ source ++
      String.join (lines.map fun (n, text) => "\n\t" ++ lineLabel n ++ ": " ++ Text.quoted text)
  | continuedNothing => ""

end Fault

/-! ## Lines -/

/-- The lines of a text, each with its line feed. -/
def splitLines : List Char → List (List Char)
  | [] => []
  | c :: cs =>
    if c = '\n' then [c] :: splitLines cs
    else match splitLines cs with
      | [] => [[c]]
      | l :: ls => (c :: l) :: ls

/-- The name in a header: all up to the last closing bracket. -/
def headerName? : List Char → Option String
  | '[' :: rest =>
    match rest.reverse.dropWhile (· ≠ ']') with
    | _ :: c :: cs => some (String.ofList (c :: cs).reverse)
    | _ => none
  | _ => none

def isDelimiter (c : Char) : Bool := c = '=' || c = ':'

/-- Name and value of an option line; the name is in lower case. -/
def optionOf (cs : List Char) : String × Option String :=
  let name := Text.lower (Text.stripRight (String.ofList (cs.takeWhile fun c => !isDelimiter c)))
  match cs.dropWhile fun c => !isDelimiter c with
  | [] => (name, none)
  | _ :: value => (name, some (Text.strip (String.ofList value)))

/-! ## Reading -/

/-- Values while they are read: the lines so far, the last one first. -/
abbrev Block := List (String × Option (List String))

structure Draft where
  /-- The sections, `DEFAULT` among them. -/
  blocks : List (String × Block) := []
  /-- The section being read. -/
  current : Option String := none
  /-- The option whose value may go on; empty for none. -/
  option : String := ""
  /-- How far the line that began this option was indented. -/
  indent : Nat := 0
  nameless : List (Nat × String) := []
deriving Inhabited

def defaultName : String := "DEFAULT"

namespace Draft

def block (d : Draft) (name : String) : Block := (d.blocks.lookup name).getD []

/-- The value that may go on; `none` if no option is open. -/
def openValue (d : Draft) : Option (String × Option (List String)) :=
  match d.current with
  | none => none
  | some s => if d.option = "" then none else ((d.block s).lookup d.option).map fun v => (s, v)

def setOption (d : Draft) (sectionName name : String) (value : Option (List String)) : Draft :=
  { d with blocks := upsert sectionName (upsert name value (d.block sectionName)) d.blocks }

/-- Adds a line to the value that is open. -/
def extend (d : Draft) (line : String) : Draft :=
  match d.openValue with
  | some (s, some lines) => d.setOption s d.option (some (line :: lines))
  | _ => d

def header (d : Draft) (n : Nat) (name : String) : Except Fault Draft :=
  if name ≠ defaultName ∧ (d.blocks.lookup name).isSome then .error (.duplicateSection n name)
  else .ok { d with
    blocks := upsert name (d.block name) d.blocks, current := some name, option := "" }

def addOption (d : Draft) (n : Nat) (sectionName : String) (line cs : List Char) :
    Except Fault Draft :=
  let (name, value) := optionOf cs
  let d := if name = "" then { d with nameless := d.nameless ++ [(n, String.ofList line)] } else d
  if ((d.block sectionName).lookup name).isSome then .error (.duplicateOption n sectionName name)
  else .ok { d.setOption sectionName name (value.map fun v => [v]) with option := name }

/-- Takes in line `n`. -/
def addLine (d : Draft) (n : Nat) (line : List Char) : Except Fault Draft :=
  let indent := (line.takeWhile Text.isSpace).length
  match Text.trimRight Text.isSpace (line.dropWhile Text.isSpace) with
  -- A blank line is part of a value, unless nothing of the value follows.
  | [] => .ok (d.extend "")
  | '#' :: _ | ';' :: _ => .ok d
  | cs =>
    -- A line that is indented further than its option goes on with the value.
    match d.openValue, decide (d.indent < indent) with
    | some (_, none), true => .error .continuedNothing
    | some _, true => .ok (d.extend (String.ofList cs))
    | _, _ =>
      let d := { d with indent }
      match headerName? cs, d.current with
      | some name, _ => d.header n name
      | none, none => .error (.noHeader n (String.ofList line))
      | none, some s => d.addOption n s line cs

def addLines (d : Draft) (n : Nat) : List (List Char) → Except Fault Draft
  | [] => .ok d
  | l :: ls =>
    match d.addLine n l with
    | .ok d => d.addLines (n + 1) ls
    | .error f => .error f

/-- A value from its lines. -/
def joinValue (lines : List String) : String :=
  Text.stripRight (String.intercalate "\n" lines.reverse)

def tableOf (b : Block) : Table := b.map fun (k, v) => (k, v.map joinValue)

/-- The sections that were read, each with the defaults under it. -/
def finish (d : Draft) : Except Fault Sections :=
  if d.nameless.isEmpty then
    let defaults := tableOf (d.block defaultName)
    .ok ((d.blocks.filter fun b => b.1 ≠ defaultName).map fun (name, b) =>
      (name, defaults.update (tableOf b)))
  else .error (.nameless d.nameless)

end Draft

def isIndent (c : Char) : Bool := c = ' ' || c = '\t'

/-- Reads a configuration text. Spaces and tabs before a line do not count. -/
def parse (text : List Char) : Except Fault Sections :=
  match Draft.addLines {} 1 ((splitLines text).map fun l => l.dropWhile isIndent) with
  | .ok d => d.finish
  | .error f => .error f

/-- The text of a configuration file. A file that holds no more than the start of a byte order mark is
empty. -/
def decode (bytes : List UInt8) : List Char :=
  if bytes = [0xef] ∨ bytes = [0xef, 0xbb] then []
  else Text.unifyLineEnds (Text.dropByteOrderMark (Text.ofUtf8Lossy bytes).toList)

end GraphicsBatch.Config
