import WeightTables.FileSystem.Path
import WeightTables.Text.Encoding

/-! File systems as trees of directories and files. A path is followed from left to right, and each
name is looked up in a directory: `.` stays there and `..` goes back towards the root. A file that
could be opened gives all its bytes, and one that could be created takes all that is written to it:
there are no full devices, and neither owners nor links. -/

namespace WeightTables

/-- The names that lead from the root to an entry. -/
abbrev Location := List String

inductive Entry where
  | directory
  | file (content : Bytes)
  deriving DecidableEq

structure FileSystem where
  entries : Location → Option Entry
  /-- Where paths that are not absolute start. -/
  workingDirectory : Location

namespace FileSystem

/-- The root is always a directory. -/
def entry? (fs : FileSystem) (here : Location) : Option Entry :=
  if here = [] then some .directory else fs.entries here

def put (fs : FileSystem) (here : Location) (entry : Entry) : FileSystem :=
  { fs with entries := fun there => if there = here then some entry else fs.entries there }

/-- The location that a name stands for in a directory, whether or not there is an entry. -/
def child (fs : FileSystem) (here : Location) (name : String) : Except FileFault Location :=
  if fs.entry? here ≠ some .directory then .error .notADirectory
  else if name = "." then .ok here
  else if name = ".." then .ok here.dropLast
  else if 255 < name.utf8ByteSize then .error .nameTooLong
  else .ok (here ++ [name])

def step (fs : FileSystem) (here : Location) (name : String) : Except FileFault Location := do
  let there ← fs.child here name
  if (fs.entry? there).isSome then return there else throw .notFound

def walk (fs : FileSystem) (here : Location) (names : List String) : Except FileFault Location :=
  names.foldlM fs.step here

def start (fs : FileSystem) (path : Path) : Location :=
  if path.absolute then [] else fs.workingDirectory

def locate (fs : FileSystem) (path : Path) : Except FileFault Location := do
  let here ← fs.walk (fs.start path) path.names
  if path.directory ∧ fs.entry? here ≠ some .directory then throw .notADirectory
  return here

/-- Where a path would put a file, which may be there already. -/
def place (fs : FileSystem) (path : Path) : Except FileFault Location := do
  let here ← fs.walk (fs.start path) path.names.dropLast
  let some name := path.names.getLast? | throw .isADirectory
  if fs.entry? here ≠ some .directory then throw .notADirectory
  if path.directory then throw .isADirectory
  let there ← fs.child here name
  if fs.entry? there = some .directory then throw .isADirectory
  return there

/-- Refuses the texts that are no path: empty ones, overlong ones and those with a NUL. -/
def path? (text : String) : Except IoError Path :=
  if '\x00' ∈ text.toList then .error .nulInPath
  else if text.isEmpty then .error (.fault .notFound)
  else if 4096 ≤ text.utf8ByteSize then .error (.fault .nameTooLong)
  else .ok (Path.ofString text)

def openRead (fs : FileSystem) (path : String) : Except IoError Location := do
  (fs.locate (← path? path)).mapError .fault

/-- The bytes of an entry. Directories have none. -/
def read (fs : FileSystem) (here : Location) : Except IoError Bytes :=
  match fs.entry? here with
  | some (.file content) => .ok content
  | some .directory => .error (.fault .isADirectory)
  | none => .error (.fault .notFound)

def create (fs : FileSystem) (path : String) : Except IoError (FileSystem × Location) := do
  let here ← (fs.place (← path? path)).mapError .fault
  return (fs.put here (.file []), here)

def write (fs : FileSystem) (here : Location) (content : Bytes) : FileSystem :=
  fs.put here (.file content)

def readText (fs : FileSystem) (path : String) : Except IoError String := do
  decodeText (← fs.read (← fs.openRead path))

end FileSystem

end WeightTables
