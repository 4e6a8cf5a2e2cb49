import WeightTables.Weight.Reading
import WeightTables.Weight.Shortest

/-! The literal of a weight: its shortest decimal, positional from `0.0001` up to `1e16` and with an
exponent outside that range. -/

namespace WeightTables.Weight

/-- Zero, and the magnitudes from that of `1e-4` up to that of `1e16`. -/
def Positional (m : Nat) : Prop :=
  m = 0 ∨ (Decimal.magnitude ⟨1, -4⟩ ≤ m ∧ m < Decimal.magnitude ⟨1, 16⟩)

instance (m : Nat) : Decidable (Positional m) := inferInstanceAs (Decidable (_ ∨ _))

def finiteLiteral (m : Nat) : List Char :=
  if Positional m then (shortest m).positional else (shortest m).scientific

/-- A minus sign goes in front of a negative weight, a negative zero included. -/
def signText (w : Weight) : List Char := if w.isNegative then ['-'] else []

def literal (w : Weight) : String :=
  if w.IsNaN then "NaN"
  else
    String.ofList <| w.signText ++
      if w.IsFinite then finiteLiteral w.magnitude else ['i', 'n', 'f']

def literalOf? (token : String) : Option String := (ofText? token).map literal

end WeightTables.Weight
