import GraphicsBatch.Engine.Host

/-! # Commands as a host sees them

A command with the right number of arguments is an instruction. What kinds of values its arguments are
is looked at only when it is carried out; a program that was parsed has the right ones. Tokens count
as texts.
-/

namespace GraphicsBatch

inductive Instruction where
  | beep
  | clear
  | arc (x1 y1 x2 y2 x3 y3 x4 y4 : Value)
  | chord (x1 y1 x2 y2 x3 y3 x4 y4 : Value)
  | pie (x1 y1 x2 y2 x3 y3 x4 y4 : Value)
  | ellipse (x1 y1 x2 y2 : Value)
  | line (x1 y1 x2 y2 : Value)
  | rectangle (x1 y1 x2 y2 : Value)
  | roundRectangle (x1 y1 x2 y2 width height : Value)
  | flood (x y r g b : Value)
  | bitmap (x y file : Value)
  | sizedBitmap (x1 y1 x2 y2 file : Value)
  | number (x y number : Value)
  | text (x y text : Value)
  | messageBox (type default icon text caption : Value)
  | run (command : Value)
  | setKeyboard
  | setMenu
  | setMouse
  | setWaitMode (mode : Value)
  | setWindow (option : Value)
  | background (option r g b : Value)
  | brush (style r g b : Value)
  | pen (style width r g b : Value)
  | font (name width height weight slant underline r g b : Value)
  | caption (text : Value)
  | coordinates (system : Value)
  | wait (timeout : Value)
deriving DecidableEq, Inhabited

/-- A token as the text of its name. -/
def Value.bare : Value → Value
  | token name => .text name
  | v => v

namespace Instruction

/-- The instruction that a command and its bare arguments make. -/
def ofBare? : Command → List Value → Option Instruction
  | .beep, [] => some .beep
  | .drawBackground, [] => some .clear
  | .drawArc, [a, b, c, d, e, f, g, h] => some (.arc a b c d e f g h)
  | .drawChord, [a, b, c, d, e, f, g, h] => some (.chord a b c d e f g h)
  | .drawPie, [a, b, c, d, e, f, g, h] => some (.pie a b c d e f g h)
  | .drawEllipse, [a, b, c, d] => some (.ellipse a b c d)
  | .drawLine, [a, b, c, d] => some (.line a b c d)
  | .drawRectangle, [a, b, c, d] => some (.rectangle a b c d)
  | .drawRoundRectangle, [a, b, c, d, w, h] => some (.roundRectangle a b c d w h)
  | .drawFlood, [x, y, r, g, b] => some (.flood x y r g b)
  | .drawBitmap, [x, y, file] => some (.bitmap x y file)
  | .drawSizedBitmap, [a, b, c, d, file] => some (.sizedBitmap a b c d file)
  | .drawNumber, [x, y, n] => some (.number x y n)
  | .drawText, [x, y, s] => some (.text x y s)
  | .messageBox, [type, default, icon, s, title] => some (.messageBox type default icon s title)
  | .run, [command] => some (.run command)
  | .setKeyboard, _ => some .setKeyboard
  | .setMenu, _ => some .setMenu
  | .setMouse, _ => some .setMouse
  | .setWaitMode, [mode] => some (.setWaitMode mode)
  | .setWindow, [option] => some (.setWindow option)
  | .useBackground, [option, r, g, b] => some (.background option r g b)
  | .useBrush, [style, r, g, b] => some (.brush style r g b)
  | .usePen, [style, width, r, g, b] => some (.pen style width r g b)
  | .useFont, [name, width, height, weight, slant, underline, r, g, b] =>
    some (.font name width height weight slant underline r g b)
  | .useCaption, [s] => some (.caption s)
  | .useCoordinates, [system] => some (.coordinates system)
  | .waitInput, [] => some (.wait .nothing)
  | .waitInput, [timeout] => some (.wait timeout)
  | _, _ => none

/-- The instruction that a command and its arguments make. -/
def ofCall? (c : Command) (args : List Value) : Option Instruction := ofBare? c (args.map Value.bare)

end Instruction

/-! ## Arguments in their places -/

/-- Arguments of the wrong kind or number. -/
def misplaced : Failure := .badArguments ""

namespace Value

/-- An argument in the place of a number. -/
def number : Value → Except Failure Int
  | int n => .ok n
  | _ => .error misplaced

/-- A number as text. -/
def numberText (v : Value) : Except Failure String := do
  (Text.writeInt (← v.number)).mapError .numeral

/-- An argument as it is written in source. Nothing cannot be written, nor can a number that is too
long. -/
def written : Value → Except Failure String
  | nothing => .error misplaced
  | int n => (Text.writeInt n).mapError .numeral
  | v => .ok v.render

/-- Arguments as they are written in source. -/
def allWritten : List Value → Except Failure (List String)
  | [] => .ok []
  | v :: vs => do
    let s ← v.written
    return s :: (← allWritten vs)

end Value

/-! ## Message boxes -/

/-- The buttons of each type of message box, numbered from 1. -/
def messageBoxButtons : List (String × List String) := [
  ("OK", ["OK"]),
  ("OKCANCEL", ["OK", "Cancel"]),
  ("YESNO", ["Yes", "No"]),
  ("YESNOCANCEL", ["Yes", "No", "Cancel"])]

/-- What a table of options holds for an argument. -/
def optionOf {α : Type} (options : List (String × α)) (v : Value) : Except Failure α :=
  match v with
  | .text s =>
    match options.lookup s with
    | some a => .ok a
    | none => .error (.unknownOption v)
  | _ => .error (.unknownOption v)

/-- The button that counts when a message box is dismissed: the default if there is such a button, the
first one if not. -/
def defaultButton (count : Nat) (default : Int) : Int :=
  if 1 ≤ default ∧ default ≤ count then default else 1

/-- The buttons of a message box and the number of the one that counts when it is dismissed. -/
def messageBoxChoice (type default : Value) : Except Failure (List String × Int) := do
  let buttons ← optionOf messageBoxButtons type
  return (buttons, defaultButton buttons.length (← default.number))

end GraphicsBatch
