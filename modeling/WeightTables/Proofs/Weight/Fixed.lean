import WeightTables.Proofs.Weight.Reading
import WeightTables.Weight.Fixed

/-! Decimals that survive rounding to a weight. Where the magnitudes lie closer together than the
decimals with a number of places, such a decimal is not moved by half its last place, so the weight
it rounds to shows the same digits again and no two of the decimals share a weight. -/

namespace WeightTables

section

variable {num den k : Nat}

theorem abs_roundHalfEven_sub_le (num : Nat) (hd : 0 < den) :
    |(roundHalfEven num den - num / den : ℚ)| ≤ 1 / 2 := by
  have hp : (0 : ℚ) < den := Nat.cast_pos.mpr hd
  have hq : (num / den : ℚ) * den = num := div_mul_cancel₀ _ hp.ne'
  obtain ⟨hupper, hlower⟩ := @roundHalfEven_near num _ hd
  have hu : (2 * (roundHalfEven num den * den) : ℚ) ≤ 2 * num + den := by exact_mod_cast hupper
  have hl : (2 * num : ℚ) ≤ 2 * (roundHalfEven num den * den) + den := by exact_mod_cast hlower
  refine abs_le.mpr ⟨le_of_mul_le_mul_right ?_ hp, le_of_mul_le_mul_right ?_ hp⟩ <;>
    rw [sub_mul, hq] <;> linarith

theorem roundHalfEven_eq_of_near (hd : 0 < den) (h : |(k - num / den : ℚ)| < 1 / 2) :
    roundHalfEven num den = k := by
  obtain ⟨hl, hu⟩ := abs_le.mp (abs_roundHalfEven_sub_le num hd)
  obtain ⟨hlk, huk⟩ := abs_lt.mp h
  apply Nat.le_antisymm
  · have hlt : (roundHalfEven num den : ℚ) < (k + 1 : Nat) := by push_cast; linarith
    exact Nat.le_of_lt_succ (Nat.cast_lt.mp hlt)
  · have hlt : (k : ℚ) < (roundHalfEven num den + 1 : Nat) := by push_cast; linarith
    exact Nat.le_of_lt_succ (Nat.cast_lt.mp hlt)

end

namespace Weight

/-- The distance from a magnitude to the next one. -/
def gap (m : Nat) : ℚ := 2 ^ shift m / unitsPerOne

theorem exact_succ (m : Nat) : exact (m + 1) = exact m + gap m := by
  rw [exact, exact, gap, units_succ, ← add_div]
  push_cast
  rfl

theorem gap_mono : Monotone gap := by
  intro m n h
  have hp : (2 : ℚ) ^ shift m ≤ 2 ^ shift n := pow_le_pow_right₀ one_le_two (shift_mono h)
  exact div_le_div_of_nonneg_right hp unitsPerOne_pos.le

section

variable {x y : ℚ} {m n k places : Nat}

theorem RoundsTo.mono (hx : RoundsTo x m) (hy : RoundsTo y n) (h : x ≤ y) : m ≤ n := by
  by_contra hlt
  obtain ⟨j, rfl⟩ : ∃ j, m = j + 1 := ⟨m - 1, by omega⟩
  have hnj : halfway n ≤ halfway j := halfway_strictMono.monotone (by omega)
  have hyx : y ≤ x := (hy.le_upper.trans hnj).trans (hx.lower_le j rfl)
  obtain rfl := le_antisymm h hyx
  exact hlt (hx.unique hy).le

/-- Rounding moves a value by at most half of the widest gap below it. -/
theorem RoundsTo.abs_sub_le_gap (h : RoundsTo x m) (h0 : 0 ≤ x) (hn : x ≤ exact (n + 1)) :
    |x - exact m| ≤ gap n / 2 := by
  rcases le_or_gt x (exact m) with hle | hlt
  · rw [abs_sub_comm, abs_of_nonneg (sub_nonneg.mpr hle)]
    cases m with
    | zero =>
      have hg : 0 ≤ gap n := div_nonneg (by positivity) unitsPerOne_pos.le
      rw [exact_zero]
      linarith
    | succ j =>
      have hmn : j + 1 ≤ n + 1 := h.mono (roundsTo_exact (n + 1)) hn
      have hg := gap_mono (Nat.le_of_succ_le_succ hmn)
      have hl := h.lower_le j rfl
      rw [halfway, exact_succ] at hl
      rw [exact_succ]
      linarith
  · have hmn : m < n + 1 := exact_strictMono.lt_iff_lt.mp (hlt.trans_le hn)
    have hg := gap_mono (Nat.le_of_lt_succ hmn)
    have hu := h.le_upper
    rw [halfway, exact_succ] at hu
    rw [abs_of_pos (sub_pos.mpr hlt)]
    linarith

theorem scaled_eq_of_roundsTo (h : RoundsTo (k / 10 ^ places) m)
    (hn : (k / 10 ^ places : ℚ) ≤ exact (n + 1)) (hg : gap n * 10 ^ places < 1) :
    scaled m places = k := by
  have hp : (0 : ℚ) < 10 ^ places := pow_pos (by norm_num) _
  have hd := h.abs_sub_le_gap (div_nonneg (Nat.cast_nonneg k) hp.le) hn
  have hq : ((units m * tenPow places : Nat) / unitsPerOne : ℚ) = exact m * 10 ^ places := by
    rw [Decimal.tenPow_eq, exact, div_mul_eq_mul_div]
    push_cast
    rfl
  have hk : (k - exact m * 10 ^ places : ℚ) = (k / 10 ^ places - exact m) * 10 ^ places := by
    rw [sub_mul, div_mul_cancel₀ _ hp.ne']
  apply roundHalfEven_eq_of_near (Nat.cast_pos.mp unitsPerOne_pos)
  rw [hq, hk, abs_mul, abs_of_pos hp]
  have hb := mul_le_mul_of_nonneg_right hd hp.le
  linarith

theorem exact_1024 : exact 0x44800000 = 1024 := by
  norm_num [exact, units, significand, shift, unitsPerOne, Nat.shiftLeft_eq]

/-- Up to `1024` four places are enough to tell a decimal from the weights around it. -/
theorem scaled_four (h : RoundsTo (k / 10 ^ 4) m) (hk : k ≤ 1024 * 10 ^ 4) : scaled m 4 = k := by
  have hk' : (k : ℚ) ≤ 1024 * 10 ^ 4 := by exact_mod_cast hk
  apply scaled_eq_of_roundsTo (n := 0x447fffff) h
  · rw [exact_1024, div_le_iff₀ (by norm_num)]
    exact hk'
  · norm_num [gap, shift, unitsPerOne, Nat.shiftLeft_eq]

/-- Values that are told apart by their magnitudes are in the order of these. -/
theorem RoundsTo.le_iff (hx : RoundsTo x m) (hy : RoundsTo y n) (hinj : m = n → x = y) :
    m ≤ n ↔ x ≤ y := by
  refine ⟨fun h => ?_, hx.mono hy⟩
  by_contra hlt
  have hnm : n ≤ m := hy.mono hx (not_le.mp hlt).le
  exact hlt (hinj (Nat.le_antisymm h hnm)).le

end

end Weight

end WeightTables
