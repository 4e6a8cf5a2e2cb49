import WeightTables.Proofs.Weight.Grid
import WeightTables.Weight.Rounding
import Mathlib.Algebra.Order.Field.Basic
import Mathlib.Tactic.FieldSimp

/-! Rounding of exact quotients and of decimals. Both give the magnitude that the exact value rounds
to, whatever the numerator and denominator or the digits and the exponent look like. -/

namespace WeightTables

theorem le_roundHalfEven {num den k : Nat} (hd : 0 < den) (h : k * den ≤ num) :
    k ≤ roundHalfEven num den := by
  have hk : k ≤ num / den := (Nat.le_div_iff_mul_le hd).mpr h
  simp only [roundHalfEven]
  split <;> omega

theorem roundHalfEven_le {num den k : Nat} (hd : 0 < den) (h : num < k * den) :
    roundHalfEven num den ≤ k := by
  have hk : num / den < k := (Nat.div_lt_iff_lt_mul hd).mpr h
  simp only [roundHalfEven]
  split <;> omega

theorem roundHalfEven_even {num den : Nat} (hd : 0 < den)
    (h : 2 * num = 2 * (roundHalfEven num den * den) + den ∨
      2 * (roundHalfEven num den * den) = 2 * num + den) :
    roundHalfEven num den % 2 = 0 := by
  have he : den * (num / den) + num % den = num := Nat.div_add_mod num den
  have hl : num % den < den := Nat.mod_lt _ hd
  have hs : (num / den + 1) * den = den * (num / den) + den := by
    rw [Nat.add_mul, Nat.one_mul, Nat.mul_comm]
  have hm : num / den * den = den * (num / den) := Nat.mul_comm ..
  apply roundHalfEven_even_of_tie
  simp only [roundHalfEven] at h
  split at h <;> omega

namespace Weight

section

variable {num den : Nat}

theorem quotient_mul (hd : 0 < den) :
    (num / den / unitsPerOne : ℚ) * (unitsPerOne * (2 * den)) = (2 * num : Nat) := by
  have hd' : (den : ℚ) ≠ 0 := Nat.cast_ne_zero.mpr (Nat.ne_of_gt hd)
  have hu := unitsPerOne_pos.ne'
  generalize (unitsPerOne : ℚ) = u at hu ⊢
  push_cast
  field_simp

theorem halfway_mul (m : Nat) :
    halfway m * (unitsPerOne * (2 * den)) = ((units m + units (m + 1)) * den : Nat) := by
  have hu := unitsPerOne_pos.ne'
  simp only [halfway, exact]
  generalize (unitsPerOne : ℚ) = u at hu ⊢
  push_cast
  field_simp

theorem scale_pos (hd : 0 < den) : (0 : ℚ) < unitsPerOne * (2 * den) :=
  mul_pos unitsPerOne_pos (mul_pos two_pos (Nat.cast_pos.mpr hd))

theorem quotient_le_halfway_iff (num : Nat) (hd : 0 < den) (m : Nat) :
    (num / den / unitsPerOne : ℚ) ≤ halfway m ↔ 2 * num ≤ (units m + units (m + 1)) * den := by
  rw [← mul_le_mul_iff_left₀ (scale_pos hd), quotient_mul hd, halfway_mul, Nat.cast_le]

theorem halfway_le_quotient_iff (num : Nat) (hd : 0 < den) (m : Nat) :
    halfway m ≤ (num / den / unitsPerOne : ℚ) ↔ (units m + units (m + 1)) * den ≤ 2 * num := by
  rw [← mul_le_mul_iff_left₀ (scale_pos hd), quotient_mul hd, halfway_mul, Nat.cast_le]

theorem midpoint_mul (m den : Nat) :
    (units m + units (m + 1)) * den = 2 * (units m * den) + den * 2 ^ shift m := by
  rw [units_succ]
  ring

theorem midpoint_mul_succ (m den : Nat) :
    (units m + units (m + 1)) * den + den * 2 ^ shift m = 2 * (units (m + 1) * den) := by
  rw [units_succ]
  ring

variable {k s : Nat}

theorem units_of_parts_mul (hk : k = 0 ∨ binade ≤ s) (hs : s ≤ 2 * binade) (den : Nat) :
    units (k * binade + s) * den = s * (den * 2 ^ k) := by
  rw [units_of_parts hk hs]
  ring

theorem quotient_le_halfway_of_parts (hd : 0 < den) (hk : k = 0 ∨ binade ≤ s)
    (hs : s ≤ 2 * binade) (habove : 2 * num ≤ 2 * (s * (den * 2 ^ k)) + den * 2 ^ k)
    (htie : 2 * num = 2 * (s * (den * 2 ^ k)) + den * 2 ^ k → s % 2 = 0) :
    (num / den / unitsPerOne : ℚ) ≤ halfway (k * binade + s) ∧
      ((num / den / unitsPerOne : ℚ) = halfway (k * binade + s) → s % 2 = 0) := by
  have hle := quotient_le_halfway_iff num hd (k * binade + s)
  have hge := halfway_le_quotient_iff num hd (k * binade + s)
  rw [midpoint_mul, units_of_parts_mul hk hs] at hle hge
  by_cases hc : s = 2 * binade
  · have hsk : den * 2 ^ k ≤ den * 2 ^ shift (k * binade + s) := by
      apply Nat.mul_le_mul_left
      apply Nat.pow_le_pow_right (by decide)
      rw [hc]; rw [shift, binade]; omega
    exact ⟨hle.mpr (by omega), fun _ => by rw [hc]; decide⟩
  · rw [shift_of_parts hk (by omega)] at hle hge
    exact ⟨hle.mpr habove, fun h => htie (Nat.le_antisymm habove (hge.mp h.ge))⟩

/-- Below a power of two the magnitudes are twice as dense, so there the quotient must not lie below
the significand. -/
theorem halfway_le_quotient_of_parts {j : Nat} (hd : 0 < den) (hs : s ≤ 2 * binade)
    (hk : k = 0 ∨ binade ≤ s ∧ binade * (den * 2 ^ k) ≤ num)
    (hbelow : 2 * (s * (den * 2 ^ k)) ≤ 2 * num + den * 2 ^ k)
    (htie : 2 * (s * (den * 2 ^ k)) = 2 * num + den * 2 ^ k → s % 2 = 0)
    (hj : k * binade + s = j + 1) :
    halfway j ≤ (num / den / unitsPerOne : ℚ) ∧
      ((num / den / unitsPerOne : ℚ) = halfway j → s % 2 = 0) := by
  have hle := quotient_le_halfway_iff num hd j
  have hge := halfway_le_quotient_iff num hd j
  have hu : units (j + 1) * den = s * (den * 2 ^ k) := by
    rw [← hj]
    exact units_of_parts_mul (hk.imp_right And.left) hs den
  have hm := midpoint_mul_succ j den
  rw [hu] at hm
  unfold binade at hs hk hj
  by_cases hc : k = 0 ∨ 0x800000 < s
  · have he : j = k * binade + (s - 1) := by rw [binade]; omega
    have hjk : shift j = k := he ▸ shift_of_parts (by rw [binade]; omega) (by unfold binade; omega)
    rw [hjk] at hm
    have hb : (units j + units (j + 1)) * den ≤ 2 * num := by omega
    refine ⟨hge.mpr hb, fun h => htie ?_⟩
    have ht := hle.mp h.le
    omega
  · have hsb : s = 0x800000 := by omega
    have hp : 0 < den * 2 ^ shift j := Nat.mul_pos hd (Nat.two_pow_pos _)
    rw [hsb] at hm
    exact ⟨hge.mpr (by omega), fun _ => by rw [hsb]⟩

end

section

variable {num den places : Nat}

theorem significand_le (hd : 0 < den) (hp : (num / den).log2 < places + 24) :
    roundHalfEven num (den * 2 ^ places) ≤ 2 * binade := by
  apply roundHalfEven_le (Nat.mul_pos hd (Nat.two_pow_pos _))
  have he : 2 * binade * 2 ^ places = 2 ^ (24 + places) := by rw [Nat.pow_add]; rfl
  have hl : num / den < 2 ^ ((num / den).log2 + 1) := Nat.lt_log2_self
  have hw : 2 ^ ((num / den).log2 + 1) ≤ 2 ^ (24 + places) :=
    Nat.pow_le_pow_right (by decide) (by omega)
  have hq : num < 2 * binade * 2 ^ places * den := by
    rw [he]
    exact (Nat.div_lt_iff_lt_mul hd).mp (hl.trans_le hw)
  have hr : 2 * binade * (den * 2 ^ places) = 2 * binade * 2 ^ places * den := by ring
  rwa [hr]

theorem binade_mul_le (hd : 0 < den) (hne : num / den ≠ 0) (hp : (num / den).log2 = places + 23) :
    binade * (den * 2 ^ places) ≤ num := by
  have he : binade * 2 ^ places = 2 ^ (num / den).log2 := by
    rw [hp, Nat.add_comm, Nat.pow_add]
  have hl : binade * 2 ^ places ≤ num / den := he ▸ Nat.log2_self_le hne
  have hr : binade * (den * 2 ^ places) = binade * 2 ^ places * den := by ring
  rw [hr]
  exact (Nat.le_div_iff_mul_le hd).mp hl

theorem significand_range (hd : 0 < den) (hp : places = (num / den).log2 - 23) :
    roundHalfEven num (den * 2 ^ places) ≤ 2 * binade ∧ (places = 0 ∨
      binade ≤ roundHalfEven num (den * 2 ^ places) ∧ binade * (den * 2 ^ places) ≤ num) := by
  refine ⟨significand_le hd (by omega), ?_⟩
  by_cases hz : places = 0
  · exact .inl hz
  · have hne : num / den ≠ 0 := by
      intro h
      rw [h] at hp
      exact hz hp
    have hq : binade * (den * 2 ^ places) ≤ num := binade_mul_le hd hne (by omega)
    exact .inr ⟨le_roundHalfEven (Nat.mul_pos hd (Nat.two_pow_pos _)) hq, hq⟩

end

theorem nearestMagnitude_rounds {num den : Nat} (hd : 0 < den) :
    RoundsTo (num / den / unitsPerOne) (nearestMagnitude num den) := by
  have hD : 0 < den * 2 ^ ((num / den).log2 - 23) := Nat.mul_pos hd (Nat.two_pow_pos _)
  obtain ⟨hs, hk⟩ := @significand_range num _ _ hd rfl
  obtain ⟨hbelow, habove⟩ := @roundHalfEven_near num _ hD
  have htie := @roundHalfEven_even num _ hD
  rw [nearestMagnitude]
  simp only [Nat.shiftLeft_eq]
  generalize (num / den).log2 - 23 = k at *
  generalize roundHalfEven num (den * 2 ^ k) = s at *
  have hpar : (k * binade + s) % 2 = s % 2 := by rw [binade]; omega
  have hu := quotient_le_halfway_of_parts hd (hk.imp_right And.left) hs habove
    (fun h => htie (.inl h))
  have hl : ∀ j, k * binade + s = j + 1 → halfway j ≤ (num / den / unitsPerOne : ℚ) ∧
      ((num / den / unitsPerOne : ℚ) = halfway j → s % 2 = 0) := fun _ =>
    halfway_le_quotient_of_parts hd hs hk hbelow (fun h => htie (.inr h))
  exact ⟨hu.1, fun h => hpar.trans (hu.2 h), fun j hj => (hl j hj).1,
    fun j hj h => hpar.trans ((hl j hj).2 h)⟩

theorem RoundsTo.lt_exact {x : ℚ} {m n : Nat} (h : RoundsTo x m) (hmn : m < n) : x < exact n :=
  (h.le_upper.trans_lt (halfway_lt_exact_succ m)).trans_le (exact_strictMono.monotone hmn)

theorem exact_infinity : exact infinity = 2 ^ 128 := by
  norm_num [exact, units, significand, shift, unitsPerOne, Nat.shiftLeft_eq]

theorem halfway_zero : halfway 0 = (2 ^ 150)⁻¹ := by
  norm_num [halfway, exact, units, significand, shift, unitsPerOne, Nat.shiftLeft_eq]

end Weight

namespace Decimal

theorem tenPow_eq (n : Nat) : tenPow n = 10 ^ n := rfl

theorem value_of_nonneg {d : Decimal} (h : 0 ≤ d.exponent) :
    d.value = (d.digits * 10 ^ d.exponent.toNat : Nat) := by
  obtain ⟨n, hn⟩ := Int.eq_ofNat_of_zero_le h
  rw [value, hn, Int.toNat_natCast, zpow_natCast]
  push_cast
  rfl

theorem value_of_nonpos {d : Decimal} (h : d.exponent ≤ 0) :
    d.value = d.digits / (10 ^ (-d.exponent).toNat : Nat) := by
  obtain ⟨n, hn⟩ := Int.eq_ofNat_of_zero_le (Int.neg_nonneg_of_nonpos h)
  have he : d.exponent = -(n : Int) := by omega
  rw [value, hn, he, Int.toNat_natCast, zpow_neg, zpow_natCast, div_eq_mul_inv]
  push_cast
  rfl

theorem value_eq_quotient (d : Decimal) :
    d.value = (d.digits * tenPow d.exponent.toNat * Weight.unitsPerOne : Nat) /
      (tenPow (-d.exponent).toNat : Nat) / Weight.unitsPerOne := by
  have hu := Weight.unitsPerOne_pos.ne'
  rcases Int.le_total 0 d.exponent with h | h
  · have hz : (-d.exponent).toNat = 0 := by omega
    rw [value_of_nonneg h, hz, tenPow_eq, tenPow_eq]
    generalize Weight.unitsPerOne = u at hu ⊢
    push_cast
    field_simp
  · have hz : d.exponent.toNat = 0 := by omega
    rw [value_of_nonpos h, hz, tenPow_eq, tenPow_eq]
    generalize Weight.unitsPerOne = u at hu ⊢
    push_cast
    field_simp

theorem exact_infinity_lt_value {d : Decimal} (hd : d.digits ≠ 0) (h : 39 ≤ d.exponent) :
    Weight.exact Weight.infinity < d.value := by
  rw [Weight.exact_infinity, value_of_nonneg (by omega)]
  have hp : 10 ^ 39 ≤ 10 ^ d.exponent.toNat := Nat.pow_le_pow_right (by decide) (by omega)
  have hm : 10 ^ d.exponent.toNat ≤ d.digits * 10 ^ d.exponent.toNat :=
    Nat.le_mul_of_pos_left _ (Nat.pos_of_ne_zero hd)
  have hl : 2 ^ 128 < d.digits * 10 ^ d.exponent.toNat :=
    lt_of_lt_of_le (by norm_num) (hp.trans hm)
  exact_mod_cast hl

theorem value_le_halfway_zero {d : Decimal} (h : d.exponent + d.digits.log2 + 47 ≤ 0) :
    d.value ≤ Weight.halfway 0 := by
  have hn : d.digits.log2 + 47 ≤ (-d.exponent).toNat := by omega
  have hl : d.digits * 2 ^ 150 ≤ 10 ^ (-d.exponent).toNat := calc
    d.digits * 2 ^ 150 ≤ 2 ^ (d.digits.log2 + 1) * 2 ^ 150 :=
      Nat.mul_le_mul_right _ Nat.lt_log2_self.le
    _ = 2 ^ d.digits.log2 * 2 ^ 151 := by ring
    _ ≤ 10 ^ d.digits.log2 * 10 ^ 47 :=
      Nat.mul_le_mul (Nat.pow_le_pow_left (by decide) _) (by norm_num)
    _ = 10 ^ (d.digits.log2 + 47) := (Nat.pow_add ..).symm
    _ ≤ 10 ^ (-d.exponent).toNat := Nat.pow_le_pow_right (by decide) hn
  have hp : (0 : ℚ) < (10 ^ (-d.exponent).toNat : Nat) := Nat.cast_pos.mpr (Nat.pow_pos (by decide))
  rw [value_of_nonpos (by omega), Weight.halfway_zero, div_le_iff₀ hp, inv_mul_eq_div,
    le_div_iff₀ (by positivity)]
  exact_mod_cast hl

/-- Below the overflow, the magnitude of a decimal depends on its exact value alone. -/
theorem magnitude_eq_iff {d : Decimal} {m : Nat} (hm : m < Weight.infinity) :
    d.magnitude = m ↔ Weight.RoundsTo d.value m := by
  rw [magnitude]
  by_cases hz : d.digits = 0
  · have hv : d.value = 0 := by simp [value, hz]
    have h0 : Weight.RoundsTo d.value 0 := by
      apply Weight.roundsTo_zero
      rw [hv, Weight.halfway_zero]
      positivity
    rw [if_pos hz]
    exact h0.eq_iff
  · rw [if_neg hz]
    by_cases hbig : 39 ≤ d.exponent
    · rw [if_pos hbig]
      refine ⟨fun h => absurd h hm.ne', fun h => ?_⟩
      exact absurd (h.lt_exact hm) (exact_infinity_lt_value hz hbig).not_gt
    · rw [if_neg hbig]
      by_cases hsmall : d.exponent + d.digits.log2 + 47 ≤ 0
      · rw [if_pos hsmall]
        exact (Weight.roundsTo_zero (value_le_halfway_zero hsmall)).eq_iff
      · rw [if_neg hsmall, value_eq_quotient]
        have hp : 0 < tenPow (-d.exponent).toNat := Nat.pow_pos (by decide)
        exact (Weight.nearestMagnitude_rounds hp).eq_iff

theorem magnitude_eq_of_value_eq {d e : Decimal} (h : d.value = e.value)
    (hd : d.magnitude < Weight.infinity) : e.magnitude = d.magnitude :=
  (magnitude_eq_iff hd).mpr (h ▸ (magnitude_eq_iff hd).mp rfl)

end Decimal

end WeightTables
