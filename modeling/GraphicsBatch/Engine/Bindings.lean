import GraphicsBatch.Engine.Datum
import GraphicsBatch.Engine.Variables

/-! # Input bindings

Clicks, keys and menu entries are bound to labels. Each of the three is replaced as a whole by its
own command.
-/

namespace GraphicsBatch

/-- Why arguments bind nothing. -/
inductive BindingFault where
  /-- The last region has only some of its seven arguments. -/
  | shortRegion (count : Nat)
  /-- A corner is no number. -/
  | corner
  /-- A name is wanted. -/
  | unnamed
  /-- The last key has no label. -/
  | noLabel
  /-- The last popup has no end. -/
  | openPopup
deriving DecidableEq, Inhabited

namespace BindingFault

def message : BindingFault → String
  | shortRegion count => "not enough values to unpack (expected 7, got " ++ toString count ++ ")"
  | corner | unnamed => ""
  | noLabel => "list index out of range"
  | openPopup => "pop from empty list"

end BindingFault

/-- The name of an argument. -/
def Value.name (v : Value) : Except BindingFault String :=
  match v.name? with
  | some n => .ok n
  | none => .error .unnamed

/-! ## Mouse -/

/-- A rectangle to click on, the label it leads to, and the variables that take the place clicked. -/
structure MouseRegion where
  x1 : Int
  y1 : Int
  x2 : Int
  y2 : Int
  label : String
  varX : String
  varY : String
deriving DecidableEq, Inhabited

namespace MouseRegion

/-- Whether a point lies in a region, edges included. Corners may come in any order. The second
coordinate is looked at only if the first one fits. -/
def contains (r : MouseRegion) (x y : Datum) : Except Misfit Bool := do
  if ← x.within (min r.x1 r.x2) (max r.x1 r.x2) then y.within (min r.y1 r.y2) (max r.y1 r.y2)
  else return false

/-- Regions from the arguments of `SetMouse`. -/
def ofArgs : List Value → Except BindingFault (List MouseRegion)
  | [] => .ok []
  | x1 :: y1 :: x2 :: y2 :: label :: varX :: varY :: rest => do
    let label ← label.name
    let varX ← varX.name
    let varY ← varY.name
    match x1, y1, x2, y2 with
    | .int x1, .int y1, .int x2, .int y2 =>
      return ⟨x1, y1, x2, y2, label, varX, varY⟩ :: (← ofArgs rest)
    | _, _, _, _ => throw .corner
  | short => .error (.shortRegion short.length)

/-- The first of some regions that holds a point. -/
def find? (x y : Datum) : List MouseRegion → Except Misfit (Option MouseRegion)
  | [] => .ok none
  | r :: rs => do
    if ← r.contains x y then return some r
    else find? x y rs

end MouseRegion

/-! ## Keys -/

/-- Keys with their labels, in the order in which they were first bound. In a program a key is an
integer or a physical key. -/
abbrev KeyTable := List (Value × String)

namespace KeyTable

/-- Binds a key; its first spelling stays. -/
def insert (key : Value) (label : String) : KeyTable → KeyTable
  | [] => [(key, label)]
  | (k, l) :: rest =>
    if k.asKey = key.asKey then (k, label) :: rest else (k, l) :: insert key label rest

def find? (t : KeyTable) (key : Value) : Option String :=
  (List.find? (fun e => e.1.asKey = key.asKey) t).map (·.2)

/-- The table of some pairs, where the last label of a key counts. -/
def ofPairs (keys : List (Value × String)) : KeyTable :=
  keys.foldl (fun table (k, l) => insert k l table) []

end KeyTable

/-- Keys and their labels from the arguments of `SetKeyboard`. -/
def keysOfArgs : List Value → Except BindingFault (List (Value × String))
  | [] => .ok []
  | [_] => .error .noLabel
  | key :: label :: rest => do
    let label ← label.name
    return (key, label) :: (← keysOfArgs rest)

/-- Runs of codes that name a key: editing keys, digits, letters, the keypad, function keys, locks. -/
def virtualKeys : List (Int × Int) := [
  (8, 9), (13, 13), (16, 20), (27, 27), (32, 40), (44, 46), (48, 57), (65, 90), (96, 107),
  (109, 127), (144, 145)]

def isVirtualKey (code : Int) : Bool := virtualKeys.any fun r => r.1 ≤ code && code ≤ r.2

/-- Whether some data are the code of a key. -/
def Datum.isVirtualKey (code : Datum) : Except Misfit Bool :=
  match code.lookup with
  | .value (.int n) => .ok (GraphicsBatch.isVirtualKey n)
  | .value _ | .nowhere => .ok false
  | .unfit => .error {}

/-! ## Menus -/

/-- An entry of a menu with a name. Entries are numbered from 1 in the order of their definition; an
entry without a label does nothing. -/
structure MenuItem where
  id : Nat
  name : Value
  label : Option String
deriving DecidableEq, Inhabited

/-- A member of a popup; `none` is a separator. -/
abbrev Member := Option MenuItem

structure Popup where
  item : MenuItem
  members : List Member
deriving DecidableEq, Inhabited

abbrev Menu := List Popup

namespace Menu

def labelOf : Value → Option String
  | .label l => some l
  | _ => none

/-- Builds popups from the arguments of `SetMenu`. `id` is the number of the next entry, and `opened`
the popup that is being filled, latest member first. -/
def build : (id : Nat) → (opened : Option (MenuItem × List Member)) → List Value →
    Except BindingFault Menu
  | _, none, [] => .ok []
  | id, none, name :: target :: rest => build (id + 1) (some (⟨id, name, labelOf target⟩, [])) rest
  | id, some (item, members), .token "ENDPOPUP" :: rest => do
    return ⟨item, members.reverse⟩ :: (← build id none rest)
  | id, some (item, members), .token "SEPARATOR" :: rest =>
    build id (some (item, none :: members)) rest
  | id, some (item, members), name :: target :: rest =>
    build (id + 1) (some (item, some ⟨id, name, labelOf target⟩ :: members)) rest
  | _, _, _ => .error .openPopup

def ofArgs (args : List Value) : Except BindingFault Menu := build 1 none args

/-- All named entries in the order of their definition. -/
def items (menu : Menu) : List MenuItem :=
  menu.flatMap fun p => p.item :: p.members.filterMap id

end Menu

/-! ## All bindings -/

structure Bindings where
  mouse : List MouseRegion := []
  keyboard : KeyTable := []
  menu : Menu := []
deriving DecidableEq, Inhabited

namespace Bindings

def setMouse (b : Bindings) (regions : List MouseRegion) : Bindings := { b with mouse := regions }

def setKeyboard (b : Bindings) (keys : List (Value × String)) : Bindings :=
  { b with keyboard := .ofPairs keys }

def setMenu (b : Bindings) (menu : Menu) : Bindings := { b with menu }

/-- The last region that holds a point. -/
def matchMouse (b : Bindings) (x y : Datum) : Except Misfit (Option MouseRegion) :=
  MouseRegion.find? x y b.mouse.reverse

/-- The label of the key of a code, if there is a code. -/
def matchCode (b : Bindings) (code : Datum) : Except Misfit (Option String) :=
  match code.lookup with
  | .value .nothing | .nowhere => .ok none
  | .value v => .ok (b.keyboard.find? v)
  | .unfit => .error {}

/-- The label of the physical key of a character, if there is a character. -/
def matchChar (b : Bindings) (char : Datum) (ctrl : Bool) : Except Misfit (Option String) :=
  if !char.isTrue then .ok none
  else match char with
    | .text s =>
      match s.toList with
      | [c] => .ok (b.keyboard.find? (.key ⟨c, ctrl⟩))
      | _ => .ok none
    | .list _ | .table _ => .error {}
    | _ => .ok none

/-- The label of a key press: by its code first, then by the character it types. -/
def matchKey (b : Bindings) (code char : Datum) (ctrl : Bool) : Except Misfit (Option String) := do
  match ← b.matchCode code with
  | some l => return some l
  | none => b.matchChar char ctrl

/-- The label of a menu entry. -/
def matchMenu (b : Bindings) (id : Datum) : Except Misfit (Option String) :=
  match id.lookup with
  | .value v => .ok ((b.menu.items.find? fun i => .int i.id = v).bind (·.label))
  | .nowhere => .ok none
  | .unfit => .error {}

end Bindings

end GraphicsBatch
