import WeightTables.Loading

/-! Loading from a named file, one step after the other. A step may look at the files around it and
add to the log, and a step that fails leaves the log as it is by then. -/

namespace WeightTables

/-- What a load finds around it: the files, and the log that it adds to. -/
structure Surroundings where
  files : FileSystem
  log : List LogEvent

abbrev LoadStep := ExceptT LoadError (StateM Surroundings)

namespace LoadStep

def attempt {α : Type} (failure : IoError → LoadError) (x : Except IoError α) : LoadStep α :=
  MonadExcept.ofExcept (x.mapError failure)

def ask {α : Type} (failure : IoError → LoadError) (question : FileSystem → Except IoError α) :
    LoadStep α := do
  attempt failure (question (← get).files)

def record (event : LogEvent) : LoadStep Unit :=
  modify fun around => { around with log := around.log ++ [event] }

def openRead (path : String) : LoadStep Location :=
  ask (fun e => if e.kind = .notFound then .fileNotFound path else .io e) (·.openRead path)

def loadLocation (count : Nat) (here : Location) : LoadStep (List Weight) := do
  let bytes ← ask .io (·.read here)
  let text ← attempt .io (decodeText bytes)
  record (.read bytes.length)
  MonadExcept.ofExcept (loadText count text)

def loadFile (count : Nat) (path : String) : LoadStep (List Weight) := do
  let here ← openRead path
  record (.opened path)
  loadLocation count here

end LoadStep

end WeightTables
