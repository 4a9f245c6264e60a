import GraphicsBatch.Config.OptionName

/-! # Which value of an option counts

Options stand in sections of configuration files, in presets and on the command line. A section may
name presets, which lie under it; the command line lies over everything.
-/

namespace GraphicsBatch.Config

/-! ## The command line -/

structure CommandLine where
  /-- The program file. -/
  program : Option String := none
  options : Table := []
  /-- Whether all further arguments are positional. -/
  ended : Bool := false
deriving Inhabited

/-- What a letter stands for. -/
def shortOption? : Char → Option (OptionName × String)
  | 'd' => some (.debug, "True")
  | 'h' => some (.help, "True")
  | 'v' => some (.version, "True")
  | 'p' => some (.pedantic, "True")
  | 'n' => some (.interface, "none")
  | _ => none

def presetName : String := "preset"

/-- Takes off a pair of quotes. -/
def unquote (s : String) : String :=
  let cs := s.toList
  let enclosed (q : Char) : Bool := 1 < cs.length && cs.head? = some q && cs.getLast? = some q
  if enclosed '"' || enclosed '\'' then String.ofList cs.tail.dropLast else s

namespace CommandLine

def set (c : CommandLine) (name value : String) : CommandLine :=
  { c with options := upsert name (some value) c.options }

def positional (c : CommandLine) (arg : String) : Noting CommandLine := do
  if c.program.isSome then
    warn ("Ignored surplus positional command-line argument `" ++ arg ++ "`")
    return c
  else return { c with program := some (unquote arg) }

/-- Takes in an option with its name written out. -/
def long (c : CommandLine) (arg : String) (rest : List Char) : Noting CommandLine := do
  let name := String.ofList (rest.takeWhile (· ≠ '='))
  let value := String.ofList ((rest.dropWhile (· ≠ '=')).drop 1)
  if (OptionName.ofName? name).isSome ∨ name = presetName then return c.set name value
  else
    warn ("Ignored unrecognised command-line argument `" ++ arg ++ "`")
    return c

def letter (c : CommandLine) (l : Char) : Noting CommandLine := do
  match shortOption? l with
  | some (o, value) => return c.set o.name value
  | none =>
    warn ("Ignored unrecognised option `-" ++ l.toString ++ "`")
    return c

def add (c : CommandLine) (arg : String) : Noting CommandLine :=
  if c.ended then c.positional arg
  else match arg.toList with
    | ['-', '-'] => return { c with ended := true }
    | '-' :: '-' :: rest => c.long arg rest
    | '-' :: l :: ls => (l :: ls).foldlM letter c
    | _ => c.positional arg

def read (args : List String) : Noting CommandLine := args.foldlM add {}

/-- The value of an option, if it was given and is not empty. -/
def value? (c : CommandLine) (name : String) : Option String :=
  match c.options.lookup name with
  | some (some v) => if v = "" then none else some v
  | _ => none

end CommandLine

/-! ## Presets -/

/-- How deep presets may lie under each other. -/
def nestingLimit : Nat := 992

/-- The options of a section over those of the presets it names. A section does not count inside its
own expansion. There is no result if the presets lie deeper than `depth`. -/
def expand (sections : Sections) :
    (depth : Nat) → (seen : List String) → (name : String) → (required : Bool) → OptionT Noting Table
  | 0, _, _, _ => failure
  | depth + 1, seen, name, required =>
    if name ∈ seen then do
      warn ("Ignored recursive preset `" ++ name ++ "`")
      return []
    else match sections.lookup name with
      | none => do
        if required then warn ("Ignored undefined preset `" ++ name ++ "`")
        return []
      | some own => do
        -- Presets that are named later override earlier ones, and the section overrides them all.
        let nested := splitItems (((own.lookup presetName).getD none).getD "")
        let under ← nested.foldlM (fun (t : Table) (preset : String) => do
          return t.update (← expand sections depth (name :: seen) preset true)) []
        return under.update own

/-! ## The options that count -/

/-- The section that is always loaded. -/
def mainSection : String := "oriel"

/-- Options from sections: the main one, then the presets in order. -/
def sectionOptions (depth : Nat) (sections : Sections) (presets : List String) :
    OptionT Noting Table := do
  let main ← expand sections depth [] mainSection false
  presets.foldlM (fun (t : Table) (preset : String) => do
    return t.update (← expand sections depth [] preset true)) main

/-- Options of a configuration file that exist; the others are noted. -/
def recognised : Table → Noting Table
  | [] => return []
  | (name, value) :: rest => do
    if name = presetName then recognised rest
    else if (OptionName.ofName? name).isSome then return (name, value) :: (← recognised rest)
    else
      warn ("Ignored unrecognised option `" ++ name ++ "=" ++ value.getD "None" ++
        "` in configuration file")
      recognised rest

/-- The texts of the options that count. -/
def resolve (depth : Nat) (sections : Sections) (c : CommandLine) : OptionT Noting Table := do
  let presets := splitItems (((c.options.lookup presetName).getD none).getD "")
  let fromSections ← recognised (← sectionOptions depth sections presets)
  let fromCommandLine := c.options.filter fun (k, _) =>
    k ≠ presetName && k ≠ OptionName.config.name
  return fromSections.update fromCommandLine

end GraphicsBatch.Config
