import WeightTables.Text.Tokens
import WeightTables.Text.Quoted
import WeightTables.Weight.Literal

/-! Array text: the literals of a weight file in rows of eight between brackets. Only a text whose
tokens all stand for weights, and of the right number, has an array text. Room for the literals is
set aside before the first token is read. -/

namespace WeightTables

inductive ArrayError where
  | capacityOverflow
  | badToken (index : Nat) (token : String)
  | wrongCount (expected found : Nat)
  deriving DecidableEq

def ArrayError.message : ArrayError → String
  | capacityOverflow => "capacity overflow"
  | badToken index token => s!"token {index} ({quote token}) is not a decimal value"
  | wrongCount expected found => s!"expected {expected} values, found {found}"

def literalAt (token : String × Nat) : Except ArrayError String :=
  match Weight.literalOf? token.1 with
  | some literal => .ok literal
  | none => .error (.badToken token.2 token.1)

def rowsOfEight {α : Type} (l : List α) : List (List α) :=
  if l = [] then [] else l.take 8 :: rowsOfEight (l.drop 8)
termination_by l.length
decreasing_by
  rename_i h
  have hl := List.length_pos_iff.mpr h
  simp only [List.length_drop]
  omega

def rowText (literals : List String) : String := "    " ++ ", ".intercalate literals ++ ",\n"

def layOut (literals : List String) : String :=
  "[\n" ++ String.join ((rowsOfEight literals).map rowText) ++ "]\n"

/-- A text without its square brackets, which leaves the literals of an array text. -/
def withoutBrackets (text : String) : String :=
  String.ofList (text.toList.filter fun c => c ≠ '[' ∧ c ≠ ']')

/-- The most literals that room can be set aside for: 24 bytes each, less than `2 ^ 63` in all. No
table has as many weights. -/
def literalCapacity : Nat := 0x7fffffffffffffff / 24

/-- A count beyond the capacity fails whatever the text is. Below it, a bad token wins over a wrong
number of tokens. -/
def arrayText (text : String) (count : Nat) : Except ArrayError String :=
  if literalCapacity < count then .error .capacityOverflow
  else do
    let literals ← (tokens text).zipIdx.mapM literalAt
    if literals.length = count then return layOut literals
    else throw (.wrongCount count literals.length)

end WeightTables
