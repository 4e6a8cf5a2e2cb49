import WeightTables.Text.Runs

/-! Paths, written as names with slashes between them. -/

namespace WeightTables

structure Path where
  absolute : Bool
  names : List String
  /-- A slash at the end asks for a directory. -/
  directory : Bool

namespace Path

def ofString (s : String) : Path where
  absolute := s.toList.head? == some '/'
  names := (runs (· = '/') s.toList).map String.ofList
  directory := s.toList.getLast? == some '/'

end Path

/-- The path `path` as seen from the directory `base`. An absolute path stays as it is. -/
def joinPath (base path : String) : String :=
  if path.toList.head? = some '/' then path
  else if base.isEmpty ∨ base.toList.getLast? = some '/' then base ++ path
  else base ++ "/" ++ path

end WeightTables
