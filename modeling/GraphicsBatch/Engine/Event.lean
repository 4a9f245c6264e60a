import GraphicsBatch.Engine.Datum

/-! # Input events -/

namespace GraphicsBatch

inductive EventKind where
  | mouseClick
  | keyDown
  | menuSelect
  | timeout
  | quit
  | other (name : String)
deriving DecidableEq, Inhabited

namespace EventKind

def name : EventKind → String
  | mouseClick => "mouse_click"
  | keyDown => "key_down"
  | menuSelect => "menu_select"
  | timeout => "timeout"
  | quit => "quit"
  | other name => name

def ofName (s : String) : EventKind :=
  ([mouseClick, keyDown, menuSelect, timeout, quit].find? fun k => k.name = s).getD (.other s)

end EventKind

/-- Something that happened, with its parts: the place and button of a click; the code, character and
Ctrl state of a key; the number of a menu entry. -/
structure Event where
  kind : EventKind
  params : List Datum := []
deriving Inhabited

/-- An event as the log shows it. -/
def Event.describe (e : Event) : String :=
  "<Event " ++ e.kind.name ++ ": " ++ Datum.describeRow e.params ++ ">"

/-! ## What an event says -/

inductive Input where
  | click (x y : Datum)
  | key (code char : Datum) (ctrl : Bool)
  | menu (id : Datum)
  | timeout
  | quit
deriving Inhabited

inductive Reading where
  | input (i : Input)
  | unknown
  /-- The number of parts does not fit the kind of event. -/
  | misfit
deriving Inhabited

def Event.read (e : Event) : Reading :=
  match e.kind, e.params with
  | .mouseClick, [x, y] | .mouseClick, [x, y, _] => .input (.click x y)
  | .keyDown, [code] => .input (.key code .none false)
  | .keyDown, [code, char] => .input (.key code char false)
  | .keyDown, [code, char, ctrl] => .input (.key code char ctrl.isTrue)
  | .menuSelect, [id] => .input (.menu id)
  | .timeout, [] => .input .timeout
  | .quit, [] => .input .quit
  | .other _, _ => .unknown
  | _, _ => .misfit

end GraphicsBatch
