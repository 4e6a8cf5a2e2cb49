import WeightTables.Weight.Basic
import Mathlib.Algebra.Order.Field.Rat
import Mathlib.Order.Monotone.Basic
import Mathlib.Tactic.Linarith
import Mathlib.Tactic.NormNum
import Mathlib.Tactic.Positivity
import Mathlib.Tactic.Ring

/-! The magnitudes on the number line. Their exact values ascend, and each exact value that is not
itself halfway between two of them rounds to a single one. -/

namespace WeightTables.Weight

theorem units_eq (m : Nat) : units m = significand m * 2 ^ shift m := Nat.shiftLeft_eq _ _

theorem eq_shift_add_significand (m : Nat) : m = shift m * binade + significand m := by
  rw [significand, shift, binade]
  omega

theorem shift_mono : Monotone shift := fun _ _ h => Nat.sub_le_sub_right (Nat.div_le_div_right h) 1

theorem shift_eq_zero_or_binade_le (m : Nat) : shift m = 0 ∨ binade ≤ significand m := by
  rw [significand, shift, binade]
  omega

theorem significand_lt (m : Nat) : significand m < 2 * binade := by
  rw [significand, shift, binade]
  omega

theorem shift_of_parts {k s : Nat} (hk : k = 0 ∨ binade ≤ s) (hs : s < 2 * binade) :
    shift (k * binade + s) = k := by
  unfold binade at hk hs
  rw [shift, binade]
  omega

theorem units_of_parts {k s : Nat} (hk : k = 0 ∨ binade ≤ s) (hs : s ≤ 2 * binade) :
    units (k * binade + s) = s * 2 ^ k := by
  by_cases hc : s = 2 * binade
  · have he : k * binade + s = (k + 1) * binade + binade := by rw [hc]; rw [binade]; omega
    have hsh : shift ((k + 1) * binade + binade) = k + 1 :=
      shift_of_parts (.inr (Nat.le_refl _)) (by decide)
    rw [he, units_eq, significand, hsh, Nat.add_sub_cancel_left, hc, Nat.pow_succ, Nat.mul_comm 2,
      Nat.mul_assoc, Nat.mul_comm 2]
  · rw [units_eq, significand, shift_of_parts hk (Nat.lt_of_le_of_ne hs hc),
      Nat.add_sub_cancel_left]

theorem units_succ (m : Nat) : units (m + 1) = units m + 2 ^ shift m := by
  have hk := shift_eq_zero_or_binade_le m
  have hs := significand_lt m
  have he : m + 1 = shift m * binade + (significand m + 1) := by
    rw [← Nat.add_assoc, ← eq_shift_add_significand]
  rw [he, units_of_parts (by omega) hs, units_eq, Nat.succ_mul]

theorem units_strictMono : StrictMono units := by
  apply strictMono_nat_of_lt_succ
  intro m
  rw [units_succ]
  exact Nat.lt_add_of_pos_right (Nat.two_pow_pos _)

theorem unitsPerOne_pos : (0 : ℚ) < unitsPerOne := by
  norm_num [unitsPerOne]

def exact (m : Nat) : ℚ := units m / unitsPerOne

theorem exact_strictMono : StrictMono exact := by
  intro m n h
  exact div_lt_div_of_pos_right (Nat.cast_lt.mpr (units_strictMono h)) unitsPerOne_pos

def halfway (m : Nat) : ℚ := (exact m + exact (m + 1)) / 2

theorem exact_lt_halfway (m : Nat) : exact m < halfway m := by
  have h := exact_strictMono (Nat.lt_succ_self m)
  rw [halfway]
  linarith

theorem halfway_lt_exact_succ (m : Nat) : halfway m < exact (m + 1) := by
  have h := exact_strictMono (Nat.lt_succ_self m)
  rw [halfway]
  linarith

theorem halfway_strictMono : StrictMono halfway := by
  apply strictMono_nat_of_lt_succ
  intro m
  exact (halfway_lt_exact_succ m).trans (exact_lt_halfway (m + 1))

/-- An exact value that lies between the two middles around a magnitude. A middle itself counts for
the even one of its two magnitudes. -/
structure RoundsTo (x : ℚ) (m : Nat) : Prop where
  le_upper : x ≤ halfway m
  even_of_upper : x = halfway m → m % 2 = 0
  lower_le : ∀ k, m = k + 1 → halfway k ≤ x
  even_of_lower : ∀ k, m = k + 1 → x = halfway k → m % 2 = 0

theorem RoundsTo.not_lt {x : ℚ} {m n : Nat} (hm : RoundsTo x m) (hn : RoundsTo x n) :
    ¬ m < n := by
  intro h
  obtain ⟨k, rfl⟩ : ∃ k, n = k + 1 := ⟨n - 1, by omega⟩
  have hl := hn.lower_le k rfl
  have hmk : halfway m ≤ halfway k := halfway_strictMono.monotone (Nat.le_of_lt_succ h)
  have hxm : x = halfway m := le_antisymm hm.le_upper (hmk.trans hl)
  have hxk : x = halfway k := le_antisymm (hm.le_upper.trans hmk) hl
  have he : m = k := halfway_strictMono.injective (hxm.symm.trans hxk)
  have hem := hm.even_of_upper hxm
  have hek := hn.even_of_lower k rfl hxk
  omega

theorem RoundsTo.unique {x : ℚ} {m n : Nat} (hm : RoundsTo x m) (hn : RoundsTo x n) : m = n :=
  Nat.le_antisymm (Nat.le_of_not_lt (hn.not_lt hm)) (Nat.le_of_not_lt (hm.not_lt hn))

theorem RoundsTo.eq_iff {x : ℚ} {m n : Nat} (hn : RoundsTo x n) : n = m ↔ RoundsTo x m :=
  ⟨fun h => h ▸ hn, hn.unique⟩

theorem roundsTo_exact (m : Nat) : RoundsTo (exact m) m where
  le_upper := (exact_lt_halfway m).le
  even_of_upper h := absurd h (exact_lt_halfway m).ne
  lower_le k hk := hk ▸ (halfway_lt_exact_succ k).le
  even_of_lower k hk h := absurd (hk ▸ h) (halfway_lt_exact_succ k).ne'

theorem roundsTo_zero {x : ℚ} (h : x ≤ halfway 0) : RoundsTo x 0 where
  le_upper := h
  even_of_upper _ := rfl
  lower_le _ hk := absurd hk (by omega)
  even_of_lower _ hk := absurd hk (by omega)

end WeightTables.Weight
