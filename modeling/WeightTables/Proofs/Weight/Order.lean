import WeightTables.Weight.Order
import Mathlib.Logic.Basic

/-! The total order of weights is a linear order on all bit patterns, and its minimum and maximum
are the bounds of two weights. -/

namespace WeightTables.Weight

protected theorem le_total (v w : Weight) : v ≤ w ∨ w ≤ v := Int.le_total v.rank w.rank

protected theorem le_trans {u v w : Weight} (huv : u ≤ v) (hvw : v ≤ w) : u ≤ w :=
  Int.le_trans huv hvw

protected theorem le_antisymm {v w : Weight} (hvw : v ≤ w) (hwv : w ≤ v) : v = w :=
  eq_of_rank_eq (Int.le_antisymm hvw hwv)

instance : Std.IsLinearOrder Weight where
  le_refl w := Int.le_refl w.rank
  le_trans _ _ _ := Weight.le_trans
  le_antisymm _ _ := Weight.le_antisymm
  le_total := Weight.le_total

protected theorem min_eq (v w : Weight) : min v w = if v ≤ w then v else w := rfl

protected theorem max_eq (v w : Weight) : max v w = if v ≤ w then w else v := rfl

protected theorem le_min_iff {u v w : Weight} : u ≤ min v w ↔ u ≤ v ∧ u ≤ w := by
  rw [Weight.min_eq]
  split
  · rename_i h
    exact ⟨fun hu => ⟨hu, Weight.le_trans hu h⟩, And.left⟩
  · rename_i h
    have hwv : w ≤ v := (Weight.le_total v w).resolve_left h
    exact ⟨fun hu => ⟨Weight.le_trans hu hwv, hu⟩, And.right⟩

protected theorem max_le_iff {u v w : Weight} : max v w ≤ u ↔ v ≤ u ∧ w ≤ u := by
  rw [Weight.max_eq]
  split
  · rename_i h
    exact ⟨fun hu => ⟨Weight.le_trans h hu, hu⟩, And.right⟩
  · rename_i h
    have hwv : w ≤ v := (Weight.le_total v w).resolve_left h
    exact ⟨fun hu => ⟨hu, Weight.le_trans hwv hu⟩, And.left⟩

instance : Std.LawfulOrderMin Weight where
  le_min_iff _ _ _ := Weight.le_min_iff
  min_eq_or v w := ite_eq_or_eq (v ≤ w) v w

instance : Std.LawfulOrderMax Weight where
  max_le_iff _ _ _ := Weight.max_le_iff
  max_eq_or v w := (ite_eq_or_eq (v ≤ w) w v).symm

end WeightTables.Weight
