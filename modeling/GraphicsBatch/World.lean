import GraphicsBatch.Display
import GraphicsBatch.Log
import GraphicsBatch.Text.Case

/-! # The world around a host: log, clock, display and child processes -/

namespace GraphicsBatch

structure World where
  log : Log := {}
  /-- Seconds since the start. -/
  clock : Float := 0
  display : Display := {}
  /-- How often a child process is found running before it is found to have ended. -/
  childLife : Nat := 0
  /-- Shell commands that were started. -/
  launched : Array String := #[]
  /-- How many seconds a program may sleep at once; `none` if there is no limit. -/
  longestSleep : Option Float := none
  /-- Whether a shell command may hold a null character. -/
  takesNull : Bool := true
deriving Inhabited

namespace World

def note (w : World) (r : Record) : World := { w with log := w.log.add r }

def mapDisplay (f : Display → Display) (w : World) : World := { w with display := f w.display }

/-- Lets some milliseconds pass. -/
def sleep (w : World) (ms : Float) : World := { w with clock := w.clock + ms / 1000 }

/-- Whether the platform refuses to sleep for some milliseconds. -/
def refusesSleep (w : World) (ms : Float) : Bool := w.longestSleep.any (· < ms / 1000)

/-- Programs that stand in for accessories of another system. -/
def aliases : List (String × String) := [
  ("NOTEPAD.EXE", "mousepad"),
  ("CALC.EXE", "libreoffice --calc"),
  ("WRITE.EXE", "libreoffice --writer"),
  ("C:\\COMMAND.COM", "xterm")]

/-- Starts a shell command, if the platform takes it, and does not wait for it. -/
def launch (w : World) (command : String) : Bool × World :=
  let command := (aliases.lookup (Text.upper command)).getD command
  let taken := w.takesNull || !command.contains '\x00'
  let w := w.note ⟨.info, "Running `" ++ command ++ "`"⟩
  (taken, { w with launched := if taken then w.launched.push command else w.launched })

end World

end GraphicsBatch
