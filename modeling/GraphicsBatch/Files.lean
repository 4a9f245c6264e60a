import GraphicsBatch.Text.Quoted

/-! # Files

The working directory as a table of paths. A path is the list of its names; folders that hold something
need no entry of their own.
-/

namespace GraphicsBatch

/-- What is at a path. -/
inductive Entry where
  | file (bytes : List UInt8)
  | folder
deriving DecidableEq, Inhabited

structure Files where
  entries : List (List String × Entry) := []
deriving Inhabited

/-- Why a path cannot be used. -/
inductive FileFault where
  | notFound (path : String)
  | isFolder (path : String)
  | notAFolder (path : String)
  | tooLong (path : String)
  /-- A path that no system takes. -/
  | invalid
deriving DecidableEq, Inhabited

def FileFault.message : FileFault → String
  | notFound path => "[Errno 2] No such file or directory: " ++ Text.quoted path
  | isFolder path => "[Errno 21] Is a directory: " ++ Text.quoted path
  | notAFolder path => "[Errno 20] Not a directory: " ++ Text.quoted path
  | tooLong path => "[Errno 36] File name too long: " ++ Text.quoted path
  | invalid => "embedded null byte"

namespace Files

/-- What is at a list of names. The empty list is the working directory. -/
def entry? (fs : Files) (names : List String) : Option Entry :=
  match fs.entries.lookup names with
  | some e => some e
  | none =>
    if names.isEmpty || fs.entries.any fun e => names.isPrefixOf e.1 then some .folder else none

/-! ## Paths -/

/-- Where the names of a path lead to. -/
inductive Place where
  | folder (names : List String)
  | file (names : List String) (bytes : List UInt8)
  /-- Nothing there yet, in a folder that exists. -/
  | vacant (names : List String)
  /-- Nothing there yet, and only a folder could be. -/
  | vacantFolder
  | missing
  | blocked
  | tooLong
  | invalid
deriving DecidableEq, Inhabited

/-- The folder above everything, where absolute paths start. -/
def root : List String := ["/"]

/-- The folder around a folder; there is none around the root. -/
def parent (folder : List String) : List String := if folder = root then root else folder.dropLast

/-- How many bytes a name may have. -/
def nameLimit : Nat := 255

/-- How many bytes a path may have. -/
def pathLimit : Nat := 4095

/-- Follows names from a folder. -/
def walk (fs : Files) (folder : List String) : List String → Place
  | [] => .folder folder
  | name :: rest =>
    if name = "" || name = "." then fs.walk folder rest
    else if name = ".." then fs.walk (parent folder) rest
    else if nameLimit < name.utf8ByteSize then .tooLong
    else
      let here := folder ++ [name]
      match fs.entry? here with
      | some .folder => fs.walk here rest
      | some (.file bytes) => if rest.isEmpty then .file here bytes else .blocked
      | none =>
        if rest.isEmpty then .vacant here
        else if rest.all (· = "") then .vacantFolder
        else .missing

/-- Where a path starts: at the root or in the working directory. -/
def startOf (path : String) : List String := if path.startsWith "/" then root else []

/-- The place of a path. An empty path leads nowhere. -/
def place (fs : Files) (path : String) : Place :=
  if path.toList.contains '\x00' then .invalid
  else if path = "" then .missing
  else if pathLimit < path.utf8ByteSize then .tooLong
  else fs.walk (startOf path) (path.splitOn "/")

/-- The path of some names. -/
def pathOf : List String → String
  | "/" :: names => "/" ++ String.intercalate "/" names
  | names => String.intercalate "/" names

def pathExists (fs : Files) (path : String) : Bool :=
  match fs.place path with
  | .folder _ | .file _ _ => true
  | _ => false

/-! ## Reading and writing -/

def read (fs : Files) (path : String) : Except FileFault (List UInt8) :=
  match fs.place path with
  | .file _ bytes => .ok bytes
  | .folder _ => .error (.isFolder path)
  | .blocked => .error (.notAFolder path)
  | .vacant _ | .vacantFolder | .missing => .error (.notFound path)
  | .tooLong => .error (.tooLong path)
  | .invalid => .error .invalid

def put (fs : Files) (names : List String) (e : Entry) : Files :=
  { fs with entries := (names, e) :: fs.entries.filter fun x => x.1 ≠ names }

/-- Writes a file anew. -/
def write (fs : Files) (path : String) (bytes : List UInt8) : Except FileFault Files :=
  match fs.place path with
  | .file names _ | .vacant names => .ok (fs.put names (.file bytes))
  | .folder _ | .vacantFolder => .error (.isFolder path)
  | .blocked => .error (.notAFolder path)
  | .missing => .error (.notFound path)
  | .tooLong => .error (.tooLong path)
  | .invalid => .error .invalid

/-- Makes the folders of a path, as far as nothing is in the way. -/
def makeFolders (fs : Files) (folder : List String) : List String → Option Files
  | [] => some fs
  | name :: rest =>
    if name = "" || name = "." then fs.makeFolders folder rest
    else if name = ".." then fs.makeFolders (parent folder) rest
    else if nameLimit < name.utf8ByteSize then none
    else
      let here := folder ++ [name]
      match fs.entry? here with
      | some .folder => fs.makeFolders here rest
      | some (.file _) => none
      | none => (fs.put here .folder).makeFolders here rest

end Files

end GraphicsBatch
