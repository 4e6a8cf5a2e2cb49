import WeightTables.Text.Blank
import WeightTables.Text.Runs

/-! Tokens: the longest stretches of a text without a comma or a blank. Separators may be repeated,
mixed, and put in front of the first token or after the last one. -/

namespace WeightTables

def IsSeparator (c : Char) : Prop := c = ',' ∨ IsBlank c

instance : DecidablePred IsSeparator := fun _ => inferInstanceAs (Decidable (_ ∨ _))

def tokens (text : String) : List String := (runs IsSeparator text.toList).map String.ofList

theorem tokens_append {c : Char} (h : IsSeparator c) (a b : String) :
    tokens (a ++ String.ofList [c] ++ b) = tokens a ++ tokens b := by
  simp [tokens, runs_append_cons h]

end WeightTables
