import WeightTables.Weight.Fixed
import WeightTables.Weight.Order

/-! Summaries of tables: length, extremes and number of zeros. -/

namespace WeightTables

structure Summary where
  length : Nat
  least : Weight
  greatest : Weight
  zeros : Nat
  deriving DecidableEq

namespace Summary

/-- The extremes are those of the total order. A table without values shows zero for both. -/
def of (values : List Weight) : Summary where
  length := values.length
  least := values.min?.getD .zero
  greatest := values.max?.getD .zero
  zeros := values.countP fun w => w.IsZero

def line (s : Summary) : String :=
  s!"shape [{s.length}], min {s.least.fixed 4}, max {s.greatest.fixed 4}, zeros {s.zeros}"

def dump (s : Summary) : String :=
  s!"TableStats \x7b len: {s.length}, min: {s.least.literal}, max: {s.greatest.literal}, " ++
    s!"zeros: {s.zeros} \x7d"

/-- Equality with the extremes compared as numbers. -/
def NumEq (s t : Summary) : Prop :=
  s.length = t.length ∧ s.least.NumEq t.least ∧ s.greatest.NumEq t.greatest ∧ s.zeros = t.zeros

instance (s t : Summary) : Decidable (s.NumEq t) := inferInstanceAs (Decidable (_ ∧ _ ∧ _ ∧ _))

end Summary

end WeightTables
