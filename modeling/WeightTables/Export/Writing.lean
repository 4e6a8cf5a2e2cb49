import WeightTables.Export.ArrayText
import WeightTables.FileSystem.Basic

/-! Array text written to a file. The source is read and checked before the target is touched, so a
failure leaves all files as they were. Creating the target is the last step that can fail: what is
then written to it is taken to arrive, so a write that breaks off halfway is no part of this. -/

namespace WeightTables

inductive ExportError where
  | unreadable (source : String) (error : IoError)
  | noArrayText (source : String) (error : ArrayError)
  | uncreatable (error : IoError)
  deriving DecidableEq

/-- The text of a failure that nobody handles. -/
def unhandled (failure : String) : String :=
  "called `Result::unwrap()` on an `Err` value: " ++ failure

/-- An overflow comes from the count, so its message does not name the source. -/
def ExportError.message : ExportError → String
  | unreadable source error => s!"Failed to read weights from {source}: {error.message}"
  | noArrayText _ .capacityOverflow => ArrayError.capacityOverflow.message
  | noArrayText source error => s!"{source}: {error.message}"
  | uncreatable error => unhandled error.dump

def exportedText (fs : FileSystem) (source : String) (count : Nat) : Except ExportError String := do
  let text ← (fs.readText source).mapError (.unreadable source)
  (arrayText text count).mapError (.noArrayText source)

def writeTable (fs : FileSystem) (source : String) (count : Nat) (target : String) :
    FileSystem × Except ExportError Unit :=
  match exportedText fs source count with
  | .error e => (fs, .error e)
  | .ok table =>
    match fs.create target with
    | .error e => (fs, .error (.uncreatable e))
    | .ok (opened, here) => (opened.write here (bytesOfText table), .ok ())

end WeightTables
