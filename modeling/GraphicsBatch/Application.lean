import GraphicsBatch.Application.About
import GraphicsBatch.Interface

/-! # The program as a whole

An invocation is the command line with the files and the world it finds. Its outcome is an exit
status, what was written, and the files and the world that it leaves.
-/

namespace GraphicsBatch.Application

open Config (Settings SettingsFault)

/-! ## Exit statuses -/

def statusOk : Int := 0
def statusError : Int := 1
def statusUsage : Int := 2

/-! ## The log as text -/

/-- A line of the log, with the time given. -/
def logLine (stamp : String) (r : Record) : String :=
  "[" ++ stamp ++ "] " ++ r.level.name ++ ": " ++ r.message ++ "\n"

def logText (stamp : String) (log : Log) : String :=
  String.join (log.records.toList.map (logLine stamp))

/-! ## Settings -/

/-- The files with a configuration file of the user: if it does not exist it is written. -/
def provideUserConfig (files : Files) (path : String) : Except SettingsFault Files :=
  if files.place path = .invalid then .error .invalidPath
  else if files.pathExists path then .ok files
  else .ok (Config.writeDefaultFile files path)

/-- The settings of an invocation with the log so far and the files. -/
def readSettings (args : List String) (user : Option String) (files : Files) :
    Except SettingsFault Settings × Log × Files :=
  match user.elim (.ok files) (provideUserConfig files) with
  | .error f => (.error f, {}, files)
  | .ok files =>
    match (Settings.read Config.nestingLimit args user files).run {} with
    | (.error f, log) => (.error f, log, files)
    | (.ok settings, log) =>
      match settings.prepareLog log files with
      | .ok (log, files) => (.ok settings, log, files)
      | .error f => (.error f, log, files)

/-- Where the log goes: to a file if the settings name one, and to the error output otherwise. -/
def deliverLog (stamp : String) (settings : Settings) (log : Log) (files : Files) :
    String × Files :=
  match settings.text .logfile with
  | "" => (logText stamp log, files)
  | path =>
    match files.write path (logText stamp log).toUTF8.toList with
    | .ok files => ("", files)
    | .error _ => ("", files)

/-- What remains on the error output when there are no settings: all that was logged, unless it was
the log file that failed. -/
def faultText (stamp : String) (log : Log) : SettingsFault → String
  | .continuedNothing | .invalidPath | .nestedTooDeep => logText stamp log
  | .logfile _ => ""

/-! ## Running a program -/

/-- Why there is no exit status. -/
inductive Crash where
  | settings (f : SettingsFault)
  | session (f : SessionFault)
deriving DecidableEq, Inhabited

/-- The end of a run: the status, the last words on the error output and the world. -/
structure Ending where
  status : Except Crash Int
  lastWords : String := ""
  world : World

/-- An error of the program, which ends the run in an orderly way. -/
def programError? : SessionFault → Option ProgramError
  | .unparsable f => f.toError?
  | .run (.trap (.error e)) => some e
  | _ => none

/-- The end after a fault of the session. -/
def endingOf (program : String) (fault : SessionFault) (world : World) : Ending :=
  match fault, programError? fault with
  | .unreadable .invalid, _ => { status := .error (.session fault), world }
  | .unreadable f, _ =>
    { status := .ok statusUsage, world
      lastWords := program ++ ": cannot read program: " ++ f.message ++ "\n" }
  | _, some e =>
    { status := .ok statusError, world, lastWords := program ++ ":" ++ e.render ++ "\n" }
  | f, none => { status := .error (.session f), world }

def appearance (s : Settings) : Interface.Appearance where
  caption := .text s.caption
  dimensions := match s.dimensions with
    | [width, height] => some (width, height)
    | _ => none

/-- Loads a program and runs it at the first interface that works. -/
def runProgram (settings : Settings) (files : Files) (fuel : Nat) (world : World) : Ending :=
  let program := settings.programFile
  let session : Session := {
    pedantic := settings.pedantic, maxStack := settings.maxStack, trace := settings.debug }
  match session.loadFile Stage.host files program (.empty world) with
  | (.error f, _, stage) => endingOf program f stage.world
  | (.ok _, session, stage) =>
    match Interface.openFirst (appearance settings) settings.interfaces stage.world with
    | .error world =>
      { status := .ok statusError, world := world.note ⟨.error, Interface.noneWorks⟩ }
    | .ok stage =>
      match session.restart.pump Stage.frontend fuel stage with
      | (.error f, _, stage) => endingOf program f stage.world
      | (.ok status, _, stage) =>
        { status := .ok statusOk, world := stage.world.note ⟨.debug, "Program " ++ status.name⟩ }

/-! ## Invocations -/

structure Invocation where
  arguments : List String
  /-- The configuration file of the user. -/
  userConfig : Option String
  files : Files
  world : World
  /-- The time that the log shows. -/
  stamp : String

structure Outcome where
  status : Except Crash Int
  stdout : String := ""
  stderr : String := ""
  files : Files
  world : World

def noProgram : String := Config.programName ++ ": no program file specified; see oriel -h\n"

/-- Does what the command line asks for. -/
def run (i : Invocation) (fuel : Nat) : Outcome :=
  match readSettings i.arguments i.userConfig i.files with
  | (.error f, log, files) =>
    { status := .error (.settings f), stderr := faultText i.stamp log f, files, world := i.world }
  | (.ok settings, log, files) =>
    let world := { i.world with log }
    let finish (stdout : String) (e : Ending) : Outcome :=
      let (logged, files) := deliverLog i.stamp settings e.world.log files
      { status := e.status, stdout, stderr := logged ++ e.lastWords, files, world := e.world }
    if settings.flag .version then finish versionText { status := .ok statusOk, world }
    else if settings.flag .help then finish usageText { status := .ok statusOk, world }
    else if settings.programFile = "" then
      finish "" { status := .ok statusUsage, lastWords := noProgram, world }
    else finish "" (runProgram settings files fuel world)

end GraphicsBatch.Application
