import WeightTables.BiasText
import WeightTables.BuildMode
import WeightTables.Export.Build
import WeightTables.Loading
import WeightTables.Table

/-! The tables of a build, found by name. -/

namespace WeightTables

def exportedBiases : List Weight := (loadText biasCount biasText).toOption.getD []

def biases (mode : BuildMode) : List Weight :=
  if mode.populated then exportedBiases else List.replicate biasCount .zero

def biasTable (mode : BuildMode) : Table := ⟨"b4", biases mode⟩

/-- All tables of a build, by name in ascending order. -/
def tables (mode : BuildMode) : List Table := [biasTable mode]

def lookup? (mode : BuildMode) (name : String) : Option Table :=
  (tables mode).find? fun t => t.name == name

end WeightTables
