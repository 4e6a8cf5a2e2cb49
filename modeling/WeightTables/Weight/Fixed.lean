import WeightTables.Weight.Literal

/-! Weights with a fixed number of decimal places. The exact value is rounded once, a half to the
even last digit, and the sign stays even where nothing else is left. -/

namespace WeightTables.Weight

/-- The exact value of a magnitude times a power of ten, rounded. -/
def scaled (m places : Nat) : Nat := roundHalfEven (units m * tenPow places) unitsPerOne

def fixed (places : Nat) (w : Weight) : String :=
  if w.IsNaN then "NaN"
  else
    String.ofList <| w.signText ++
      if w.IsFinite then fixedPoint (scaled w.magnitude places) places else ['i', 'n', 'f']

end WeightTables.Weight
