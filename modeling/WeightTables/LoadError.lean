import WeightTables.IoError

/-! Why a table could not be loaded. -/

namespace WeightTables

inductive LoadError where
  | fileNotFound (path : String)
  | io (error : IoError)
  | badToken (index : Nat) (token : String)
  | wrongCount (expected found : Nat)
  | wrongByteCount (expected found : Nat)
  deriving DecidableEq

namespace LoadError

def message : LoadError → String
  | fileNotFound path => s!"Weight file not found: {path}"
  | io error => s!"I/O error: {error.message}"
  | badToken index token => s!"Invalid weight at index {index}: {quote token}"
  | wrongCount expected found => s!"Expected {expected} weights, found {found}"
  | wrongByteCount expected found => s!"Expected {expected} bytes of weight data, found {found}"

def dump : LoadError → String
  | fileNotFound path => s!"FileNotFound \x7b path: {quote path} \x7d"
  | io error => s!"Io \x7b source: {error.dump} \x7d"
  | badToken index token => s!"Parse \x7b index: {index}, token: {quote token} \x7d"
  | wrongCount expected found => s!"Length \x7b expected: {expected}, found: {found} \x7d"
  | wrongByteCount expected found => s!"ByteLength \x7b expected: {expected}, found: {found} \x7d"

def source? : LoadError → Option IoError
  | io error => some error
  | _ => none

end LoadError

end WeightTables
