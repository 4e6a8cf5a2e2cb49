import WeightTables.FileSystem.Basic
import WeightTables.LoadError
import WeightTables.Stream
import WeightTables.Text.Tokens
import WeightTables.Weight.Reading

/-! Tables of a fixed length from text, raw bytes, a stream or a named file. A token that stands for
no weight is reported before a wrong count, wherever it is, and the first such token is the one. -/

namespace WeightTables

/-- Reads tokens, the first of which has the given index. -/
def weightsOfTokens : Nat → List String → Except LoadError (List Weight)
  | _, [] => .ok []
  | index, token :: rest =>
    match Weight.ofText? token with
    | none => .error (.badToken index token)
    | some w => (weightsOfTokens (index + 1) rest).map (w :: ·)

/-- A table stands in memory as a whole, four bytes a weight, and addresses have 57 bits at most.
The loads take any count, but no run has a table of more weights than this. -/
def TableFits (count : Nat) : Prop := 4 * count < 1 <<< 57

instance (count : Nat) : Decidable (TableFits count) := inferInstanceAs (Decidable (_ < _))

def loadText (count : Nat) (text : String) : Except LoadError (List Weight) := do
  let values ← weightsOfTokens 0 (tokens text)
  if values.length = count then return values else throw (.wrongCount count values.length)

def loadBytes (count : Nat) (bytes : Bytes) : Except LoadError (List Weight) :=
  if bytes.length = 4 * count then .ok (weightsOfBytes bytes)
  else .error (.wrongByteCount (4 * count) bytes.length)

/-- What a load puts on record: how far it got. -/
inductive LogEvent where
  | opened (path : String)
  | read (size : Nat)
  deriving DecidableEq

def LogEvent.line : LogEvent → String
  | opened path => s!"DEBUG Loading weights from {path}"
  | read size => s!"DEBUG Read {size} bytes of weight text"

structure LoadRun where
  log : List LogEvent
  result : Except LoadError (List Weight)

/-- Loads a table from the bytes of a text, unless they could not be read. -/
def loadContent (count : Nat) (content : Except IoError Bytes) : LoadRun :=
  match content with
  | .error e => ⟨[], .error (.io e)⟩
  | .ok bytes =>
    match decodeText bytes with
    | .error e => ⟨[], .error (.io e)⟩
    | .ok text => ⟨[.read bytes.length], loadText count text⟩

def loadStream (count : Nat) (stream : Stream) : LoadRun := loadContent count stream.content

/-- Loads a table from a named file. Only a path that leads nowhere is a missing file; the other
failures are reported as they are. -/
def loadFile (count : Nat) (fs : FileSystem) (path : String) : LoadRun :=
  match fs.openRead path with
  | .error e => ⟨[], .error (if e.kind = .notFound then .fileNotFound path else .io e)⟩
  | .ok here =>
    let run := loadContent count (fs.read here)
    { run with log := .opened path :: run.log }

end WeightTables
