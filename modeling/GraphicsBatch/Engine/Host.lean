import GraphicsBatch.Engine.Bindings
import GraphicsBatch.Engine.Datum
import GraphicsBatch.Language.Fault
import GraphicsBatch.Log

/-! # The host of a program

A program leaves to its host all that shows: drawing, sound, message boxes, waiting. The engine asks,
and the host answers or signals.
-/

namespace GraphicsBatch

/-- What the engine asks of its host. -/
inductive Request where
  /-- Look for events that end the run. -/
  | checkEvents
  /-- Carry out a command. Variables in its arguments have their values. -/
  | forward (command : Command) (args : List Value)
  | bindMouse (region : MouseRegion) (waitMode : String)
  | bindKey (key : Value) (label : String)
  | showMenu (menu : Menu)
deriving DecidableEq, Inhabited

/-- A failure of the host itself. -/
inductive Failure where
  | reported (kind : String) (text : String)
  /-- An option that the host does not know. -/
  | unknownOption (option : Value)
  /-- Arguments that do not fit the command, or a number that fits no place. -/
  | badArguments (text : String)
  /-- A text is wanted. -/
  | notText
  | number (f : NumberFault)
  | numeral (f : Text.NumeralFault)
  /-- A place in a list that is not there. -/
  | outOfRange
  /-- A shell command with a null character. -/
  | nullCharacter
  /-- A sleep that is too long for the platform. -/
  | sleepTooLong
  /-- The display refused. -/
  | display (text : String)
deriving DecidableEq, Inhabited

/-- What a failure says about itself; its kind if it says nothing. -/
def Failure.describe : Failure → String
  | reported kind text => if text = "" then kind else text
  | unknownOption option => option.describe
  | badArguments text => if text = "" then "TypeError" else text
  | notText => "AttributeError"
  | number f => f.message
  | numeral f => f.message
  | outOfRange => "list index out of range"
  | nullCharacter => "embedded null byte"
  | sleepTooLong => "timestamp out of range for platform time_t"
  | display text => if text = "" then "error" else text

/-- What a host may signal instead of an answer. -/
inductive Signal where
  /-- The host has shut down. -/
  | exit
  | interrupt
  | error (e : ProgramError)
  | failure (f : Failure)
deriving DecidableEq, Inhabited

/-- A host with states `σ`. Its state outlives a call that fails. -/
structure Host (σ : Type) where
  call : Request → σ → Except Signal Datum × σ
  /-- Takes a record into the log. -/
  note : Record → σ → σ

/-- Why a statement was not completed. -/
inductive Halt where
  | exit
  | interrupt
  | error (e : ProgramError)
  /-- The answer to a message box is no number, or a number is too long to be shown. -/
  | conversion (f : IntFault)
deriving DecidableEq, Inhabited

/-- A failure of the host counts as an error of the program. -/
def Halt.ofSignal : Signal → Halt
  | .exit => .exit
  | .interrupt => .interrupt
  | .error e => .error e
  | .failure f => .error { kind := .host, detail := f.describe }

namespace Host

variable {σ : Type}

/-- Asks the host. -/
def ask (h : Host σ) (r : Request) (w : σ) : Except Halt Datum × σ :=
  match h.call r w with
  | (.ok reply, w') => (.ok reply, w')
  | (.error s, w') => (.error (.ofSignal s), w')

/-- Asks in turn until a request fails. The answer is the one to the first request. -/
def askAll (h : Host σ) : List Request → σ → Except Halt Datum × σ
  | [], w => (.ok .none, w)
  | r :: rs, w =>
    match h.ask r w with
    | (.error e, w') => (.error e, w')
    | (.ok reply, w') =>
      match h.askAll rs w' with
      | (.error e, w'') => (.error e, w'')
      | (.ok _, w'') => (.ok reply, w'')

/-- The host that does nothing. It keeps a log and no more. -/
def silent (note : Record → σ → σ) : Host σ where
  call _ w := (.ok .none, w)
  note := note

end Host

end GraphicsBatch
