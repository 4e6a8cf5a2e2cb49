import WeightTables.Proofs.Numeral.Significant
import WeightTables.Proofs.Weight.Literal

/-! The literal of a weight is its shortest decimal, and the nearest to it of those that are as
short. It is written with an exponent only where the weight is very small or very large. Two tokens
have the same literal exactly if they stand for the same weight. -/

namespace WeightTables.Weight

/-- The numeral reads back as the weight with the fewest significant digits, and none with as few
is nearer. -/
structure IsShortest (w : Weight) (n : Numeral) : Prop where
  fewest : ∀ other : Numeral, other.WellFormed →
    ofText? (String.ofList other.toList) = some w → n.significant.length ≤ other.significant.length
  nearest : ∀ other : Numeral, other.WellFormed →
    ofText? (String.ofList other.toList) = some w →
      other.significant.length = n.significant.length →
        |n.value - w.value| ≤ |other.value - w.value|

/-- Positional, with a digit after the point, for zeros and from the weight nearest to `1e-4` up to
below `1e16`. Otherwise with an exponent, after one digit before the point. -/
structure Notated (w : Weight) (n : Numeral) : Prop where
  positional_iff : ∃ least, IsNearest (1 / 10 ^ 4) least ∧
    (n.scale = none ↔ w.IsZero ∨ least.value ≤ |w.value| ∧ |w.value| < 10 ^ 16)
  positional : n.scale = none → ∃ ds, n.fraction = some ds ∧ ds ≠ []
  scientific : n.scale ≠ none → n.whole.length = 1

variable {w : Weight} {n : Numeral}

theorem abs_value (w : Weight) : |w.value| = exact w.magnitude := by
  rw [value, abs_withSign, abs_of_nonneg (exact_nonneg _)]

/-- What a numeral that reads as a weight has in common with it. -/
theorem roundsTo_size (hn : n.WellFormed) (h : ofText? (String.ofList n.toList) = some w) :
    RoundsTo n.size w.magnitude ∧ n.isNegative = w.isNegative := by
  rw [ofText?_of_toList hn String.toList_ofList, ofDecimal?] at h
  split at h
  · rename_i hf
    have hs : n.decimal.magnitude < signBit := Nat.lt_trans hf (by decide)
    rw [← Option.some.inj h, magnitude_ofParts hs, isNegative_ofParts hs, ← n.value_decimal]
    exact ⟨(Decimal.magnitude_eq_iff hf).mp rfl, rfl⟩
  · exact absurd h (by simp)

theorem abs_value_sub (h : n.isNegative = w.isNegative) :
    |n.value - w.value| = |exact w.magnitude - n.size| := by
  rw [Numeral.value, value, h, abs_withSign_sub, abs_sub_comm]

theorem isNegative_literalNumeral (w : Weight) : w.literalNumeral.isNegative = w.isNegative :=
  Numeral.isNegative_signed (sign_magnitudeNumeral _)

theorem size_literalNumeral (w : Weight) :
    w.literalNumeral.size = (shortest w.magnitude).value := by
  rw [← value_magnitudeNumeral, ← Numeral.value_decimal]
  rfl

theorem value_shortest_zero : (shortest 0).value = 0 := by
  simp [shortest, Decimal.value]

theorem isShortest_literalNumeral (hw : w.IsFinite) : IsShortest w w.literalNumeral := by
  have hn := w.wellFormed_literalNumeral
  by_cases hz : w.magnitude = 0
  · have h0 : w.literalNumeral.size = 0 := by rw [size_literalNumeral, hz, value_shortest_zero]
    have hd : HasDigits w.literalNumeral.size 0 := ⟨0, 0, by decide, by simp [h0, Decimal.value]⟩
    refine ⟨fun _ _ _ => ?_, fun _ _ _ _ => ?_⟩
    · exact (Numeral.length_significant_le hn hd).trans (Nat.zero_le _)
    · rw [abs_value_sub w.isNegative_literalNumeral, h0, hz, exact_zero, sub_zero, abs_zero]
      exact abs_nonneg _
  · refine ⟨fun other ho hr => ?_, fun other ho hr hl => ?_⟩
    · obtain ⟨hx, _⟩ := roundsTo_size ho hr
      obtain ⟨hfew, _⟩ := shortest_least hz hw hx (Numeral.hasDigits_size ho)
      rw [← size_literalNumeral] at hfew
      exact Numeral.length_significant_le hn hfew
    · obtain ⟨hx, hs⟩ := roundsTo_size ho hr
      obtain ⟨_, hnear⟩ := shortest_least hz hw hx (Numeral.hasDigits_size ho)
      rw [abs_value_sub w.isNegative_literalNumeral, abs_value_sub hs, size_literalNumeral]
      refine hnear fun j hj => ?_
      rw [← size_literalNumeral] at hj
      exact hl.trans_le (Numeral.length_significant_le hn hj)

theorem magnitude_one_e_four : Decimal.magnitude ⟨1, -4⟩ = 0x38d1b717 := by decide +kernel

theorem magnitude_one_e_sixteen : Decimal.magnitude ⟨1, 16⟩ = 0x5a0e1bca := by decide +kernel

theorem lt_magnitude_one_e_sixteen_iff (m : Nat) :
    m < Decimal.magnitude ⟨1, 16⟩ ↔ exact m < 10 ^ 16 := by
  have hlt : ∀ k, exact k < 10 ^ 16 ↔ units k < 10 ^ 16 * unitsPerOne := by
    intro k
    rw [exact, div_lt_iff₀ unitsPerOne_pos]
    exact_mod_cast Iff.rfl
  rw [magnitude_one_e_sixteen]
  constructor
  · intro h
    have hle : exact m ≤ exact 0x5a0e1bc9 := exact_strictMono.monotone (Nat.le_of_lt_succ h)
    exact hle.trans_lt ((hlt _).mpr (by decide +kernel))
  · intro h
    by_contra hm
    have hle : exact 0x5a0e1bca ≤ exact m := exact_strictMono.monotone (Nat.le_of_not_lt hm)
    exact absurd ((hlt _).mp (hle.trans_lt h)) (by decide +kernel)

theorem isNearest_one_e_four : IsNearest (1 / 10 ^ 4) ⟨0x38d1b717⟩ := by
  have hv : (Decimal.mk 1 (-4)).value = 1 / 10 ^ 4 := by norm_num [Decimal.value]
  have hr : RoundsTo (Decimal.mk 1 (-4)).value (Weight.mk 0x38d1b717).magnitude :=
    (Decimal.magnitude_eq_iff (by decide)).mp magnitude_one_e_four
  exact hv ▸ isNearest_of_roundsTo (by decide) (Decimal.value_nonneg _) hr

theorem fraction_fixedNumeral {places : Nat} (n : Nat) (h : 0 < places) :
    ∃ ds, (fixedNumeral n places).fraction = some ds ∧ ds ≠ [] := by
  refine ⟨_, rfl, List.ne_nil_of_length_pos ?_⟩
  rw [length_fraction_fixedNumeral n h]
  exact h

theorem scale_literalNumeral (w : Weight) :
    w.literalNumeral.scale = none ↔ Positional w.magnitude := by
  have hs : w.literalNumeral.scale = (magnitudeNumeral w.magnitude).scale := rfl
  rw [hs, magnitudeNumeral]
  split
  · rename_i h
    refine iff_of_true ?_ h
    rw [Decimal.positionalNumeral]
    split <;> rfl
  · rename_i h
    exact iff_of_false (Option.some_ne_none _) h

theorem notated_literalNumeral (w : Weight) : Notated w w.literalNumeral where
  positional_iff := by
    refine ⟨_, isNearest_one_e_four, ?_⟩
    have hleast : (Weight.mk 0x38d1b717).value = exact (Decimal.magnitude ⟨1, -4⟩) := by
      rw [magnitude_one_e_four]
      rfl
    rw [scale_literalNumeral, Positional, abs_value, hleast, exact_strictMono.le_iff_le,
      lt_magnitude_one_e_sixteen_iff]
  positional h := by
    have hp := w.scale_literalNumeral.mp h
    have hn : w.literalNumeral.fraction = (shortest w.magnitude).positionalNumeral.fraction := by
      rw [literalNumeral, magnitudeNumeral, if_pos hp]
      rfl
    rw [hn, Decimal.positionalNumeral]
    split
    · exact fraction_fixedNumeral _ (by omega)
    · exact fraction_fixedNumeral _ Nat.one_pos
  scientific h := by
    have hp := mt w.scale_literalNumeral.mpr h
    have hn : w.literalNumeral.whole = (Nat.toDigits 10 (shortest w.magnitude).digits).take 1 := by
      rw [literalNumeral, magnitudeNumeral, if_neg hp]
      rfl
    rw [hn, List.length_take]
    exact Nat.min_eq_left (List.length_pos_iff.mpr Nat.toDigits_ne_nil)

/-- The literal of a token reads back as the same weight and is its own literal. It is the shortest
numeral of the weight, notated by the size of the weight, and no other weight has it. -/
theorem literalOf?_shortest {token : String} (h : ofText? token = some w) :
    ∃ (s : String) (n : Numeral), literalOf? token = some s ∧ ofText? s = some w ∧
      literalOf? s = some s ∧ n.WellFormed ∧ s.toList = n.toList ∧ IsShortest w n ∧ Notated w n ∧
      ∀ other v, ofText? other = some v → (literalOf? token = literalOf? other ↔ w = v) := by
  have hw := isFinite_of_ofText? h
  have hback := ofText?_literal hw
  have hl : ∀ t v, ofText? t = some v → literalOf? t = some v.literal := by
    intro t v ht
    rw [literalOf?, ht, Option.map_some]
  refine ⟨w.literal, w.literalNumeral, hl token w h, hback, hl _ w hback,
    w.wellFormed_literalNumeral, toList_literal hw, isShortest_literalNumeral hw,
    notated_literalNumeral w, fun other v hv => ?_⟩
  rw [hl token w h, hl other v hv, Option.some.injEq]
  constructor
  · intro he
    have hv' := ofText?_literal (isFinite_of_ofText? hv)
    rw [← he, hback] at hv'
    exact Option.some.inj hv'
  · intro he
    rw [he]

/-- A token between two weights, whose literal has a digit that the token has not. -/
theorem literalOf?_shortest_small :
    ofText? "33554435" = some ⟨0x4c000001⟩ ∧ literalOf? "33554435" = some "33554436.0" ∧
      ∃ n : Numeral, "33554436.0".toList = n.toList ∧ IsShortest ⟨0x4c000001⟩ n ∧
        Notated ⟨0x4c000001⟩ n := by
  have hr : ofText? "33554435" = some ⟨0x4c000001⟩ := by decide +kernel
  have hs : literalOf? "33554435" = some "33554436.0" := by decide +kernel
  obtain ⟨s, n, hl, _, _, _, hn, hshort, hnotated, _⟩ := literalOf?_shortest hr
  obtain rfl := Option.some.inj (hs.symm.trans hl)
  exact ⟨hr, hs, n, hn, hshort, hnotated⟩

end WeightTables.Weight
