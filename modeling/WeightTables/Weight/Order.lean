import WeightTables.Weight.Basic

/-! Two ways to compare weights. The total order `≤` ranks every bit pattern, from the negative
patterns that are no numbers up to the positive ones, with the negative zero just below the
positive zero. Numerically the two zeros are equal, and a pattern that is no number is not even
equal to itself. -/

namespace WeightTables.Weight

def rank (w : Weight) : Int :=
  if w.isNegative then -(w.magnitude : Int) - 1 else w.magnitude

instance : LE Weight where
  le v w := v.rank ≤ w.rank

instance (v w : Weight) : Decidable (v ≤ w) := inferInstanceAs (Decidable (v.rank ≤ w.rank))

instance : Min Weight where
  min v w := if v ≤ w then v else w

instance : Max Weight where
  max v w := if v ≤ w then w else v

theorem le_iff {v w : Weight} : v ≤ w ↔ v.rank ≤ w.rank := Iff.rfl

theorem eq_of_rank_eq {v w : Weight} (h : v.rank = w.rank) : v = w := by
  rw [← ofParts_isNegative_magnitude v, ← ofParts_isNegative_magnitude w]
  unfold rank at h
  cases hv : v.isNegative <;> cases hw : w.isNegative <;> simp only [hv, hw, Bool.false_eq_true,
    if_true, if_false] at h
  · rw [show v.magnitude = w.magnitude by omega]
  · omega
  · omega
  · rw [show v.magnitude = w.magnitude by omega]

/-- The place of a number on the number line, the same for both zeros. -/
def signed (w : Weight) : Int :=
  if w.isNegative then -(w.magnitude : Int) else w.magnitude

abbrev NumEq (v w : Weight) : Prop := ¬ v.IsNaN ∧ ¬ w.IsNaN ∧ v.signed = w.signed

abbrev NumLE (v w : Weight) : Prop := ¬ v.IsNaN ∧ ¬ w.IsNaN ∧ v.signed ≤ w.signed

end WeightTables.Weight
