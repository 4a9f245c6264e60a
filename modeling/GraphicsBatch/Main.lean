import GraphicsBatch.Application

/-! # The command line

Files are read before the program is run and written after it.
-/

namespace GraphicsBatch.Shell

/-- Looks at a path on the disk. A folder can be opened but not read. -/
def look (path : String) : IO (Option Entry) := do
  try
    let bytes ← IO.FS.readBinFile path
    return some (.file bytes.toList)
  catch _ =>
    try
      let _ ← IO.FS.Handle.mk path .read
      return some .folder
    catch _ => return none

/-- Takes in what is at a path and at the folders above it. -/
def gather (files : Files) (path : String) : IO Files := do
  let names := (path.splitOn "/").filter fun n => n ≠ "" && n ≠ "."
  let mut files := files
  for i in [0:names.length] do
    let here := Files.startOf path ++ names.take (i + 1)
    if let some e ← look (Files.pathOf here) then files := files.put here e
  return files

/-- The values of long options, which may be paths. -/
def optionValue (arg : String) : String := "=".intercalate ((arg.splitOn "=").drop 1)

/-- Writes the files that are new or have changed. -/
def scatter (before after : Files) : IO Unit := do
  for (names, e) in after.entries do
    if before.entries.lookup names ≠ some e then
      match e with
      | .file bytes =>
        IO.FS.createDirAll (Files.pathOf names.dropLast)
        IO.FS.writeBinFile (Files.pathOf names) ⟨bytes.toArray⟩
      | .folder => pure ()

/-- The time since the system was started. -/
def timeStamp : IO String := do
  let ms ← IO.monoMsNow
  let two (n : Nat) : String := (if n < 10 then "0" else "") ++ toString n
  let s := ms / 1000
  let fraction := toString (10000 + ms % 1000)
  return two (s / 3600 % 24) ++ ":" ++ two (s / 60 % 60) ++ ":" ++ two (s % 60) ++ "." ++
    fraction.drop 1

def configHome : IO String := do
  match ← IO.getEnv "XDG_CONFIG_HOME" with
  | some dir => if dir ≠ "" then return dir
  | none => pure ()
  return ((← IO.getEnv "HOME").getD "") ++ "/.config"

/-- More steps than can ever be taken. -/
def fuel : Nat := 1000000000000000000

def run (args : List String) : IO UInt32 := do
  let user := (← configHome) ++ "/oriel-0.3/ORIEL.INI"
  let files ← (user :: Config.localFile :: args ++ args.map optionValue).foldlM gather {}
  let files ← match Application.readSettings args (some user) files with
    | (.ok settings, _, _) => gather files (settings.text .logfile)
    | _ => pure files
  let world : World :=
    { display := { defect := .missing }, longestSleep := some 9223372036, takesNull := false }
  let outcome := Application.run {
    arguments := args, userConfig := some user, files, world, stamp := ← timeStamp } fuel
  scatter files outcome.files
  IO.print outcome.stdout
  IO.eprint outcome.stderr
  match outcome.status with
  | .ok n => return n.toNat.toUInt32
  | .error _ => return 1

end GraphicsBatch.Shell

def main (args : List String) : IO UInt32 := GraphicsBatch.Shell.run args
