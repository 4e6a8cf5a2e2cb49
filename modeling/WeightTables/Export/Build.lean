import WeightTables.Export.Writing
import WeightTables.FileSystem.Path

/-! One build run: it announces what the build depends on and exports the biases of the fourth
layer, unless the build is for synthesis. -/

namespace WeightTables

/-- The variables that a build run looks at. A variable may be set to the empty text. -/
structure Environment where
  /-- The weight file, in place of the one of the project. -/
  weights : Option String
  outputDirectory : Option String
  /-- Set for synthesis, whatever its value. -/
  synthesis : Option String

namespace Environment

/-- The path of the weight file. It starts in the project's directory unless it is absolute. -/
def weightFile (env : Environment) (project : String) : String :=
  joinPath project (env.weights.getD "weights/b4.txt")

end Environment

inductive BuildError where
  | noOutputDirectory
  | failedExport (error : ExportError)
  deriving DecidableEq

def BuildError.message : BuildError → String
  | noOutputDirectory => unhandled "NotPresent"
  | failedExport error => error.message

structure BuildRun where
  printed : String
  files : FileSystem
  result : Except BuildError Unit

def directives (weightFile : String) : List String :=
  ["cargo:rerun-if-env-changed=B4_WEIGHTS", s!"cargo:rerun-if-changed={weightFile}",
    "cargo:rerun-if-changed=build/codegen.rs", "cargo:rerun-if-changed=src/text.rs"]

def announcement (weightFile : String) : String :=
  String.join ((directives weightFile).map (· ++ "\n"))

def biasCount : Nat := 256

def exportBiases (fs : FileSystem) (weightFile : String) :
    Option String → FileSystem × Except BuildError Unit
  | none => (fs, .error .noOutputDirectory)
  | some directory =>
    let (after, result) := writeTable fs weightFile biasCount (joinPath directory "b4.rs")
    (after, result.mapError .failedExport)

def build (env : Environment) (project : String) (fs : FileSystem) : BuildRun :=
  let weightFile := env.weightFile project
  let (after, result) :=
    if env.synthesis.isSome then (fs, .ok ()) else exportBiases fs weightFile env.outputDirectory
  ⟨announcement weightFile, after, result⟩

end WeightTables
