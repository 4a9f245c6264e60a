import GraphicsBatch.Language.Program

/-! # Argument lists

Each command declares the slots of its argument list. An argument is read before its slot is known
and then fitted to it.
-/

namespace GraphicsBatch

/-! ## Slots -/

/-- A place in an argument list. `choices` are the bare tokens that it takes. -/
structure Slot where
  kind : Kind
  choices : List String := []
deriving DecidableEq, Inhabited

namespace Slot

def int : Slot := { kind := .integer }
def str : Slot := { kind := .string }
def var : Slot := { kind := .variable }
def lbl : Slot := { kind := .label }
def key : Slot := { kind := .key }
def token (choices : List String) : Slot := { kind := .token, choices }

/-- The label of a menu entry, or `IGNORE` for an entry that does nothing. -/
def menuLabel : Slot := { kind := .label, choices := ["IGNORE"] }

end Slot

/-- The shape of a command's argument list. -/
inductive Signature where
  | fixed (slots : List Slot)
  /-- All slots may be left out from the right. -/
  | optional (slots : List Slot)
  /-- Whole repetitions of a group of slots. -/
  | repeating (group : List Slot)
  | menu
  /-- The command has no argument list. -/
  | plain

def Command.signature : Command → Signature
  | .beep | .drawBackground => .plain
  | .drawArc | .drawChord | .drawPie => .fixed (List.replicate 8 .int)
  | .drawBitmap | .drawText => .fixed [.int, .int, .str]
  | .drawEllipse | .drawLine | .drawRectangle => .fixed (List.replicate 4 .int)
  | .drawFlood => .fixed (List.replicate 5 .int)
  | .drawNumber => .fixed (List.replicate 3 .int)
  | .drawRoundRectangle => .fixed (List.replicate 6 .int)
  | .drawSizedBitmap => .fixed [.int, .int, .int, .int, .str]
  | .messageBox =>
    .fixed [.token messageBoxTypes, .int, .token messageBoxIcons, .str, .str, .var]
  | .run | .useCaption => .fixed [.str]
  | .setWaitMode => .fixed [.token waitModes]
  | .setWindow => .fixed [.token windowOptions]
  | .useBackground => .fixed [.token backgroundOptions, .int, .int, .int]
  | .useBrush => .fixed [.token brushTypes, .int, .int, .int]
  | .useCoordinates => .fixed [.token coordinateSystems]
  | .useFont =>
    .fixed [.str, .int, .int, .token fontWeights, .token fontSlants, .token fontUnderlines,
      .int, .int, .int]
  | .usePen => .fixed [.token penTypes, .int, .int, .int, .int]
  | .waitInput => .optional [.int]
  | .setMouse => .repeating [.int, .int, .int, .int, .lbl, .var, .var]
  | .setKeyboard => .repeating [.key, .lbl]
  | .setMenu => .menu

/-! ## Fitting arguments to slots -/

/-- An argument as it stands in the source. Its integers are such as a numeral can write; the reader gives no others. -/
inductive Raw where
  | integer (n : Text.Numeral)
  | text (s : String)
  | name (s : String)
deriving DecidableEq, Inhabited

structure RawArg where
  raw : Raw
  pos : Position
deriving DecidableEq, Inhabited

def Raw.render : Raw → String
  | integer n => n.text
  | text s => "\"" ++ s ++ "\""
  | name s => s

/-- A fault at a place. -/
abbrev Fit := Except (Malformed × Position)

/-- A key in quotes: one visible ASCII character, after a caret for Ctrl. -/
def readPhysicalKey (s : String) : Option PhysicalKey :=
  let visible (c : Char) : Bool := '!' ≤ c && c ≤ '~'
  match s.toList with
  | [c] => if visible c then some ⟨c, false⟩ else none
  | ['^', c] => if visible c then some ⟨c, true⟩ else none
  | _ => none

/-- The value that an argument has in a slot, if it fits there. -/
def Slot.convert (slot : Slot) (arg : RawArg) : Fit Value :=
  let misfit : Fit Value := .error (.wrongType arg.raw.render, arg.pos)
  match slot.kind, arg.raw with
  | .token, .name s =>
    if slot.choices.contains (Text.upper s) then .ok (.token (Text.upper s))
    else .error (.unmatchedToken s, arg.pos)
  | .token, _ => misfit
  | .string, .text s => .ok (.text s)
  | .string, _ => misfit
  -- A reserved word names no label and no variable, but the slot may list it as a choice.
  | kind, .name s =>
    if slot.choices.contains (Text.upper s) then .ok (.token (Text.upper s))
    else if isReserved s then misfit
    else if kind = .label then .ok (.label s)
    else .ok (.var s)
  | .integer, .integer n | .key, .integer n => .ok (.int n.value)
  | .key, .text s =>
    match readPhysicalKey s with
    | some k => .ok (.key k)
    | none => .error (.invalidPhysicalKey s, arg.pos)
  | _, _ => misfit

/-- Fits arguments to slots one by one, as long as there are both. -/
def convertAll : List Slot → List RawArg → Fit (List Argument)
  | slot :: slots, arg :: args => do
    let value ← slot.convert arg
    let rest ← convertAll slots args
    return ⟨slot.kind, value⟩ :: rest
  | _, _ => .ok []

/-! ## Menus

A menu is a row of popups. A popup is a name and a label, then its members, then `ENDPOPUP`; a
member is `SEPARATOR` or a name and a label.
-/

/-- Where the reading of a menu stands. -/
inductive MenuStage where
  | header
  | headerLabel
  | member
  | memberLabel
deriving DecidableEq, Inhabited

/-- The structure token at hand, if the argument is one. -/
def menuToken? : Raw → Option String
  | .name s =>
    let t := Text.upper s
    if t = "SEPARATOR" || t = "ENDPOPUP" then some t else none
  | _ => none

def MenuStage.slot (stage : MenuStage) (arg : RawArg) : Slot :=
  match stage with
  | header => .str
  | headerLabel | memberLabel => .menuLabel
  | member =>
    match menuToken? arg.raw with
    | some t => .token [t]
    | none => .str

def MenuStage.next (stage : MenuStage) (arg : RawArg) : MenuStage :=
  match stage with
  | header => .headerLabel
  | headerLabel | memberLabel => .member
  | member =>
    match menuToken? arg.raw with
    | some t => if t = "ENDPOPUP" then .header else .member
    | none => .memberLabel

/-- Reads the arguments of a menu from left to right. It may only end before a popup. -/
def checkMenu (endPos : Position) : MenuStage → List RawArg → Fit (List Argument)
  | .header, [] => .ok []
  | _, [] => .error (.missingArgument, endPos)
  | stage, arg :: args => do
    let slot := stage.slot arg
    let value ← slot.convert arg
    let rest ← checkMenu endPos (stage.next arg) args
    return ⟨slot.kind, value⟩ :: rest

/-! ## Argument lists -/

/-- Checks an argument list against a command's signature. `endPos` is where the list ends. -/
def Command.checkArguments (c : Command) (args : List RawArg) (endPos : Position) :
    Fit (List Argument) :=
  -- The first argument that is too much is to blame.
  let tooMany (count : Nat) : Option Position := args[count]?.map (·.pos)
  match c.signature with
  | .plain => .error (.unknownCommand c.name, endPos)
  | .fixed slots =>
    match tooMany slots.length with
    | some pos => .error (.tooManyArguments c.name, pos)
    | none =>
      if args.length < slots.length then .error (.missingArgument, endPos)
      else convertAll slots args
  | .optional slots =>
    match tooMany slots.length with
    | some pos => .error (.tooManyArguments c.name, pos)
    | none => convertAll slots args
  | .repeating group =>
    if args.length % group.length ≠ 0 then .error (.missingArgument, endPos)
    else convertAll (List.replicate (args.length / group.length) group).flatten args
  | .menu => checkMenu endPos .header args

/-- Checks the argument list of the command of a given name. -/
def checkArguments (name : String) (args : List RawArg) (endPos : Position) :
    Fit (List Argument) :=
  match Command.ofName? name with
  | some c => c.checkArguments args endPos
  | none => .error (.unknownCommand name, endPos)

end GraphicsBatch
