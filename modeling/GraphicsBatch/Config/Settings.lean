import GraphicsBatch.Config.Resolve
import GraphicsBatch.Files

/-! # Settings

The settings of a run are read from the command line, a configuration file of the user and one in the
working directory.
-/

namespace GraphicsBatch.Config

structure Settings where
  program : Option String := none
  options : List (OptionName × OptionValue) := []
deriving Inhabited

namespace Settings

/-- The value of an option, if it says anything. -/
def get? (s : Settings) (o : OptionName) : Option OptionValue :=
  match s.options.lookup o with
  | some v => if v.isBlank then none else some v
  | none => none

def get (s : Settings) (o : OptionName) : OptionValue := (s.get? o).getD o.default

def flag (s : Settings) (o : OptionName) : Bool :=
  match s.get o with
  | .flag b => b
  | _ => false

def text (s : Settings) (o : OptionName) : String :=
  match s.get o with
  | .text t => t
  | _ => ""

def programFile (s : Settings) : String := s.program.getD ""

def pedantic (s : Settings) : Bool := s.flag .pedantic
def debug (s : Settings) : Bool := s.flag .debug
def caption (s : Settings) : String := s.text .caption

/-- The greatest depth of calls; never below 0. -/
def maxStack (s : Settings) : Int :=
  match s.get .maxStack with
  | .int n => max 0 n
  | _ => 0

def dimensions (s : Settings) : List Int :=
  match s.get .dimensions with
  | .ints ns => ns
  | _ => []

/-- The interfaces to try. Unless one is asked for, this is the window, or else none. -/
def interfaces (s : Settings) : List String :=
  match s.text .interface with
  | "" => ["pygame", "none"]
  | "graphical" => ["pygame"]
  | name => [name]

end Settings

/-! ## The default configuration file -/

def programVersion : String := "0.3.0"

/-- An option with its default, commented out. -/
def defaultLine (o : OptionName) : String :=
  let choices := match o with
    | .interface => "## choices: " ++ String.intercalate ", " interfaceChoices ++ "\n"
    | _ => ""
  choices ++ "#" ++ o.name ++ "=" ++ o.default.render

def defaultFile : String :=
  "# PyOriel configuration file.\n" ++
  "# Lines starting with # are comments. Remove the # to set an option.\n" ++
  "# Options have the same names as on the command line; see oriel -h.\n" ++
  "\n" ++
  "[oriel]\n" ++
  "# Options in this section are always loaded (version " ++ programVersion ++ ").\n" ++
  String.intercalate "\n" (OptionName.all.map defaultLine) ++ "\n" ++
  "\n" ++
  "# Define a preset by adding a section, for example:\n" ++
  "# [shallow]\n" ++
  "# max-stack=100\n" ++
  "# and load it with --preset=shallow.\n"

def byteOrderMark : List UInt8 := [0xef, 0xbb, 0xbf]

/-- Writes the default configuration file, if that is possible. -/
def writeDefaultFile (files : Files) (path : String) : Files :=
  match files.makeFolders (Files.startOf path) ((path.splitOn "/").dropLast) with
  | none => files
  | some files =>
    match files.write path (byteOrderMark ++ defaultFile.toUTF8.toList) with
    | .ok files => files
    | .error _ => files

/-! ## Reading -/

/-- Why there are no settings. -/
inductive SettingsFault where
  /-- A configuration file goes on with the value of an option that has none. -/
  | continuedNothing
  /-- A configuration file cannot even be looked for. -/
  | invalidPath
  /-- Presets lie too deep under each other. -/
  | nestedTooDeep
  | logfile (f : FileFault)
deriving DecidableEq, Inhabited

def builtInPresets : Sections :=
  [("strict", [("pedantic", some "True")]), ("headless", [("interface", some "none")])]

/-- The file of options in the working directory. -/
def localFile : String := "ORIEL.INI"

def notLoaded (path reason : String) : Noting Unit :=
  warn ("Configuration file `" ++ path ++ "` not loaded: " ++ reason)

/-- The sections of a configuration file. A file that cannot be read counts as empty. -/
def readFile (files : Files) (path : String) : Noting (Except SettingsFault Sections) := do
  match files.read path with
  | .error .invalid => return .error .invalidPath
  | .error f =>
    notLoaded path f.message
    return .ok []
  | .ok bytes =>
    match parse (decode bytes) with
    | .ok sections => return .ok sections
    | .error .continuedNothing => return .error .continuedNothing
    | .error f =>
      notLoaded path f.message
      return .ok []

/-- Sections from several files, later ones over earlier ones. -/
def readFiles (files : Files) : List String → Sections → Noting (Except SettingsFault Sections)
  | [], sections => return .ok sections
  | path :: rest, sections => do
    match ← readFile files path with
    | .ok more => readFiles files rest (sections.update more)
    | .error f => return .error f

/-- The configuration files to read: that of the user, and one that is asked for or else the local
one. -/
def filesToRead (files : Files) (user : Option String) (c : CommandLine) : List String :=
  let asked := match c.value? OptionName.config.name with
    | some path => [path]
    | none => if files.pathExists localFile then [localFile] else []
  user.toList ++ asked

def convertAll (raw : Table) : Noting (List (OptionName × OptionValue)) :=
  (raw.filterMap fun (k, v) => (OptionName.ofName? k).map fun o => (o, v)).mapM fun (o, v) => do
    return (o, ← convert o v)

/-- Reads the settings. -/
def Settings.read (depth : Nat) (args : List String) (user : Option String) (files : Files) :
    Noting (Except SettingsFault Settings) := do
  let c ← CommandLine.read args
  match ← readFiles files (filesToRead files user c) builtInPresets with
  | .error f => return .error f
  | .ok sections =>
    match ← (resolve depth sections c).run with
    | none => return .error .nestedTooDeep
    | some raw =>
      let options ← convertAll raw
      return .ok { program := c.program, options }

/-! ## The log -/

/-- Sets the log up as the settings say: with debugging on, everything is logged; a log file is
emptied. -/
def Settings.prepareLog (s : Settings) (log : Log) (files : Files) :
    Except SettingsFault (Log × Files) :=
  let log := { log with threshold := if s.debug then .debug else .info }
  match s.text .logfile with
  | "" => .ok (log, files)
  | path =>
    match files.write path [] with
    | .ok files => .ok (log, files)
    | .error f => .error (.logfile f)

end GraphicsBatch.Config
