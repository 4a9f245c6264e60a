import GraphicsBatch.Text.Case

/-! # The words of the language

Commands are carried out by the host, keywords also steer the program, and bare tokens choose among
the options of a command. A name may be spelled like none of them, in any case.
-/

namespace GraphicsBatch

/-! ## Commands -/

inductive Command where
  | beep | drawBackground
  | drawArc | drawBitmap | drawChord | drawEllipse | drawFlood | drawLine | drawNumber | drawPie
  | drawRectangle | drawRoundRectangle | drawSizedBitmap | drawText | messageBox | run
  | setKeyboard | setMenu | setMouse | setWaitMode | setWindow | useBackground | useBrush
  | useCaption | useCoordinates | useFont | usePen | waitInput
deriving DecidableEq, Inhabited

namespace Command

def name : Command → String
  | beep => "Beep"
  | drawBackground => "DrawBackground"
  | drawArc => "DrawArc"
  | drawBitmap => "DrawBitmap"
  | drawChord => "DrawChord"
  | drawEllipse => "DrawEllipse"
  | drawFlood => "DrawFlood"
  | drawLine => "DrawLine"
  | drawNumber => "DrawNumber"
  | drawPie => "DrawPie"
  | drawRectangle => "DrawRectangle"
  | drawRoundRectangle => "DrawRoundRectangle"
  | drawSizedBitmap => "DrawSizedBitmap"
  | drawText => "DrawText"
  | messageBox => "MessageBox"
  | run => "Run"
  | setKeyboard => "SetKeyboard"
  | setMenu => "SetMenu"
  | setMouse => "SetMouse"
  | setWaitMode => "SetWaitMode"
  | setWindow => "SetWindow"
  | useBackground => "UseBackground"
  | useBrush => "UseBrush"
  | useCaption => "UseCaption"
  | useCoordinates => "UseCoordinates"
  | useFont => "UseFont"
  | usePen => "UsePen"
  | waitInput => "WaitInput"

def all : List Command := [
  beep, drawBackground, drawArc, drawBitmap, drawChord, drawEllipse, drawFlood, drawLine,
  drawNumber, drawPie, drawRectangle, drawRoundRectangle, drawSizedBitmap, drawText, messageBox,
  run, setKeyboard, setMenu, setMouse, setWaitMode, setWindow, useBackground, useBrush, useCaption,
  useCoordinates, useFont, usePen, waitInput]

/-- `Beep` and `DrawBackground` stand alone; all other commands have an argument list. -/
def isPlain : Command → Bool
  | beep | drawBackground => true
  | _ => false

/-- The command of exactly this name. -/
def ofName? (s : String) : Option Command := all.find? fun c => c.name = s

theorem mem_all (c : Command) : c ∈ all := by cases c <;> decide

end Command

/-! ## Keywords -/

inductive Keyword where
  | goto | gosub | back | finish | cond | andThen | assign
  | command (c : Command)
deriving DecidableEq, Inhabited

namespace Keyword

def spelling : Keyword → String
  | goto => "Goto"
  | gosub => "Gosub"
  | back => "Return"
  | finish => "End"
  | cond => "If"
  | andThen => "Then"
  | assign => "Set"
  | command c => c.name

def all : List Keyword :=
  [goto, gosub, back, finish, cond, andThen, assign] ++ Command.all.map command

def table : List (String × Keyword) := all.map fun k => (Text.upper k.spelling, k)

/-- The keyword that a name spells, in any case. -/
def ofName? (s : String) : Option Keyword := table.lookup (Text.upper s)

theorem mem_all (k : Keyword) : k ∈ all := by
  cases k with
  | command c => simp [all, Command.mem_all]
  | _ => simp [all]

end Keyword

/-! ## Bare tokens -/

def messageBoxTypes : List String := ["OK", "OKCANCEL", "YESNO", "YESNOCANCEL"]
def messageBoxIcons : List String := ["INFORMATION", "EXCLAMATION", "QUESTION", "STOP", "NOICON"]
def windowOptions : List String := ["MAXIMIZE", "MINIMIZE", "RESTORE"]
def backgroundOptions : List String := ["OPAQUE", "TRANSPARENT"]
def brushTypes : List String :=
  ["SOLID", "DIAGONALUP", "DIAGONALDOWN", "DIAGONALCROSS", "HORIZONTAL", "VERTICAL", "CROSS", "NULL"]
def coordinateSystems : List String := ["PIXEL", "METRIC"]
def waitModes : List String := ["NULL", "FOCUS"]
def penTypes : List String := ["SOLID", "NULL", "DASH", "DOT", "DASHDOT", "DASHDOTDOT"]
def fontWeights : List String := ["BOLD", "NOBOLD"]
def fontSlants : List String := ["ITALIC", "NOITALIC"]
def fontUnderlines : List String := ["UNDERLINE", "NOUNDERLINE"]
def menuTokens : List String := ["IGNORE", "SEPARATOR", "ENDPOPUP"]

def bareTokens : List String :=
  messageBoxTypes ++ messageBoxIcons ++ windowOptions ++ backgroundOptions ++ brushTypes ++
    coordinateSystems ++ waitModes ++ penTypes ++ fontWeights ++ fontSlants ++ fontUnderlines ++
    menuTokens

def reservedWords : List String := Keyword.table.map (·.1) ++ bareTokens

/-- Names of labels and variables may not be spelled like a keyword or a bare token. -/
def isReserved (name : String) : Bool := reservedWords.contains (Text.upper name)

end GraphicsBatch
