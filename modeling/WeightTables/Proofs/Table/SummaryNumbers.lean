import WeightTables.Proofs.Numeral.Printed
import WeightTables.Proofs.Weight.Fixed
import WeightTables.Summary

/-! The numbers in the summary line. Each is the exact value of its weight, rounded once to a number
of places: no further away than half of the last place, with an even last digit where it is just as
far away, and with the sign of the weight even where all of its digits are zeros. -/

namespace WeightTables

/-- A numeral without an exponent and with a number of places, to which a weight has been rounded. -/
structure Rounded (places : Nat) (w : Weight) (n : Numeral) : Prop where
  wellFormed : n.WellFormed
  sign : n.sign = if w.isNegative then .minus else .unsigned
  whole : n.whole = ['0'] ∨ ∃ c rest, n.whole = c :: rest ∧ c ≠ '0'
  fraction : ∃ ds, n.fraction = some ds ∧ ds.length = places
  scale : n.scale = none
  near : |n.value - w.value| ≤ 1 / (2 * 10 ^ places)
  even_of_tie : |n.value - w.value| = 1 / (2 * 10 ^ places) →
    ∀ ds last, n.fraction = some (ds ++ [last]) → (last.toNat - '0'.toNat) % 2 = 0

theorem roundHalfEven_even_of_abs {num den : Nat} (hd : 0 < den)
    (h : |(roundHalfEven num den - num / den : ℚ)| = 1 / 2) : roundHalfEven num den % 2 = 0 := by
  have hp : (den : ℚ) ≠ 0 := Nat.cast_ne_zero.mpr hd.ne'
  have hscale : ((roundHalfEven num den - num / den : ℚ)) * den =
      roundHalfEven num den * den - num := by
    rw [sub_mul, div_mul_cancel₀ _ hp]
  apply roundHalfEven_even hd
  rcases eq_or_eq_neg_of_abs_eq h with hs | hs
  · right
    have hm : (2 * (roundHalfEven num den * den) : ℚ) = 2 * num + den := by
      rw [hs] at hscale
      linarith
    exact_mod_cast hm
  · left
    have hm : (2 * num : ℚ) = 2 * (roundHalfEven num den * den) + den := by
      rw [hs] at hscale
      linarith
    exact_mod_cast hm

/-- Behind the point, the last digit is that of the digits as a whole. -/
theorem last_digit_mod_two {n places : Nat} {ds : List Char} {last : Char} (hp : 0 < places)
    (h : (Nat.toDigits 10 (n % tenPow places)).leftpad places '0' = ds ++ [last]) :
    (last.toNat - '0'.toNat) % 2 = n % 2 := by
  have hv := ofDigitChars_leftpad places (Nat.toDigits 10 (n % tenPow places))
  rw [h, Nat.ofDigitChars_append, Nat.ofDigitChars_cons, Nat.ofDigitChars_nil,
    Nat.ofDigitChars_ten_toDigits] at hv
  obtain ⟨k, rfl⟩ := Nat.exists_eq_add_one.mpr hp
  have hd : 2 ∣ tenPow (k + 1) := Dvd.dvd.mul_left (by decide) (10 ^ k)
  have hn := Nat.mod_mod_of_dvd n hd
  omega

namespace Weight

variable {w : Weight} {places : Nat}

def fixedNumeral (places : Nat) (w : Weight) : Numeral :=
  (WeightTables.fixedNumeral (scaled w.magnitude places) places).signed w.isNegative

theorem fixed_eq_text (h : w.IsFinite) : w.fixed places = (w.fixedNumeral places).text := by
  rw [fixed, if_neg (Nat.not_lt.mpr h.le), if_pos h, signText, Numeral.text, fixedNumeral,
    Numeral.toList_signed rfl, toList_fixedNumeral]

theorem value_fixedNumeral (hp : 0 < places) (w : Weight) :
    (w.fixedNumeral places).value = withSign w.isNegative (scaled w.magnitude places / 10 ^ places) := by
  have hd : (w.fixedNumeral places).decimal = ⟨scaled w.magnitude places, -places⟩ :=
    decimal_fixedNumeral _ hp
  rw [Numeral.value, ← Numeral.value_decimal, hd, fixedNumeral, Numeral.isNegative_signed rfl,
    Decimal.value, zpow_neg, zpow_natCast, div_eq_mul_inv]

/-- In last places, a weight is as far from its rounded value as a quotient is. -/
theorem abs_value_fixedNumeral_sub (hp : 0 < places) (w : Weight) :
    |(w.fixedNumeral places).value - w.value| * 10 ^ places =
      |(roundHalfEven (units w.magnitude * tenPow places) unitsPerOne -
        (units w.magnitude * tenPow places : Nat) / unitsPerOne : ℚ)| := by
  have ht : (0 : ℚ) < 10 ^ places := pow_pos (by norm_num) _
  rw [value_fixedNumeral hp, value, abs_withSign_sub, ← abs_of_pos ht, ← abs_mul, abs_of_pos ht,
    sub_mul, div_mul_cancel₀ _ ht.ne', scaled, exact, Decimal.tenPow_eq]
  congr 2
  push_cast
  ring

theorem rounded_fixedNumeral (hp : 0 < places) (w : Weight) :
    Rounded places w (w.fixedNumeral places) where
  wellFormed := Numeral.wellFormed_signed (wellFormed_fixedNumeral _ _)
  sign := rfl
  whole := toDigits_zero_or_head_ne_zero _
  fraction := ⟨_, rfl, length_fraction_fixedNumeral _ hp⟩
  scale := rfl
  near := by
    have ht : (0 : ℚ) < 10 ^ places := pow_pos (by norm_num) _
    have hn := abs_roundHalfEven_sub_le (units w.magnitude * tenPow places)
      (Nat.cast_pos.mp unitsPerOne_pos)
    rw [← abs_value_fixedNumeral_sub hp] at hn
    rwa [← div_div, le_div_iff₀ ht]
  even_of_tie := by
    intro he ds last hf
    have ht : (0 : ℚ) < 10 ^ places := pow_pos (by norm_num) _
    rw [← div_div, eq_div_iff ht.ne', abs_value_fixedNumeral_sub hp] at he
    rw [last_digit_mod_two hp (Option.some.inj hf)]
    exact roundHalfEven_even_of_abs (Nat.cast_pos.mp unitsPerOne_pos) he

end Weight

/-- The line of a summary with finite extremes shows both of them rounded to four places. -/
theorem line_numbers_rounded (s : Summary) (hl : s.least.IsFinite) (hg : s.greatest.IsFinite) :
    ∃ a b : Numeral,
      s.line = s!"shape [{s.length}], min {a.text}, max {b.text}, zeros {s.zeros}" ∧
        Rounded 4 s.least a ∧ Rounded 4 s.greatest b := by
  refine ⟨s.least.fixedNumeral 4, s.greatest.fixedNumeral 4, ?_,
    Weight.rounded_fixedNumeral (by decide) _, Weight.rounded_fixedNumeral (by decide) _⟩
  rw [Summary.line, Weight.fixed_eq_text hl, Weight.fixed_eq_text hg]

/-- From the least negative weight, of which only the sign is left, to the greatest of all. -/
theorem line_numbers_rounded_small :
    let s : Summary := ⟨2, ⟨0x80000001⟩, ⟨0x7f7fffff⟩, 0⟩
    s.line = "shape [2], min -0.0000, max 340282346638528859811704183484516925440.0000, zeros 0" ∧
      ∃ a b : Numeral,
        s.line = s!"shape [{s.length}], min {a.text}, max {b.text}, zeros {s.zeros}" ∧
          Rounded 4 ⟨0x80000001⟩ a ∧ Rounded 4 ⟨0x7f7fffff⟩ b := by
  intro s
  exact ⟨by decide +kernel, line_numbers_rounded s (by decide) (by decide)⟩

/-- Halfway between `0.0312` and `0.0313`. -/
example : Weight.fixed 4 ⟨0x3d000000⟩ = "0.0312" := by decide +kernel

end WeightTables
