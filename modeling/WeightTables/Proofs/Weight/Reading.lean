import WeightTables.Proofs.Numeral
import WeightTables.Proofs.Weight.Nearest
import WeightTables.Weight.Reading

/-! Reading a numeral gives the weight nearest to its exact value, the one with the even significand
of two that are equally near. Numerals of any length are covered, and whatever their exponent is,
the only ones that are refused are those that lie beyond all finite weights by half a step. -/

namespace WeightTables

def withSign (negative : Bool) (x : ℚ) : ℚ := if negative then -x else x

theorem abs_withSign (negative : Bool) (x : ℚ) : |withSign negative x| = |x| := by
  cases negative with
  | false => rfl
  | true => exact abs_neg x

theorem abs_withSign_sub (negative : Bool) (x y : ℚ) :
    |withSign negative x - withSign negative y| = |x - y| := by
  cases negative with
  | false => rfl
  | true =>
    have h : -x - -y = -(x - y) := by ring
    exact (congrArg abs h).trans (abs_neg _)

theorem abs_withSign_sub_of_ne {a b : Bool} (h : a ≠ b) (x y : ℚ) :
    |withSign a x - withSign b y| = |x + y| := by
  have hb : b = !a := by cases a <;> cases b <;> simp_all
  have hy : withSign (!a) y = withSign a (-y) := by cases a <;> simp [withSign]
  rw [hb, hy, abs_withSign_sub, sub_neg_eq_add]

namespace Weight

theorem exact_zero : exact 0 = 0 := by
  simp [exact, units, significand]

theorem exact_nonneg (m : Nat) : 0 ≤ exact m :=
  div_nonneg (Nat.cast_nonneg _) unitsPerOne_pos.le

/-- The exact value of a finite weight. -/
def value (w : Weight) : ℚ := withSign w.isNegative (exact w.magnitude)

/-- The finite weight nearest to an exact value. Where another one is just as near, the significand
is even. -/
structure IsNearest (x : ℚ) (w : Weight) : Prop where
  finite : w.IsFinite
  nearest : ∀ v : Weight, v.IsFinite → |x - w.value| ≤ |x - v.value|
  even_of_tie : ∀ v : Weight, v.IsFinite → v.value ≠ w.value → |x - v.value| = |x - w.value| →
    significand w.magnitude % 2 = 0

theorem significand_mod_two (m : Nat) : significand m % 2 = m % 2 := by
  rw [significand, shift, binade]
  omega

section

variable {x : ℚ} {m n : Nat}

theorem RoundsTo.abs_sub_le (h : RoundsTo x m) (n : Nat) : |x - exact m| ≤ |x - exact n| := by
  rcases Nat.lt_trichotomy n m with hlt | rfl | hgt
  · obtain ⟨k, rfl⟩ : ∃ k, m = k + 1 := ⟨m - 1, by omega⟩
    have hl := h.lower_le k rfl
    have hk := exact_lt_halfway k
    have hn : exact n ≤ exact k := exact_strictMono.monotone (Nat.le_of_lt_succ hlt)
    have hm : exact n < exact (k + 1) := exact_strictMono hlt
    rw [halfway] at hl
    rw [abs_of_nonneg (by rw [halfway] at hk; linarith : 0 ≤ x - exact n)]
    exact abs_le.mpr ⟨by linarith, by linarith⟩
  · exact le_refl _
  · have hu := h.le_upper
    have hn : exact (m + 1) ≤ exact n := exact_strictMono.monotone hgt
    have hm := exact_strictMono (Nat.lt_succ_self m)
    rw [halfway] at hu
    rw [abs_of_nonpos (by linarith : x - exact n ≤ 0)]
    exact abs_le.mpr ⟨by linarith, by linarith⟩

theorem RoundsTo.even_of_abs_sub_eq (h : RoundsTo x m) (hne : n ≠ m)
    (he : |x - exact n| = |x - exact m|) : m % 2 = 0 := by
  have hxm : exact n ≠ exact m := exact_strictMono.injective.ne hne
  rcases Nat.lt_or_gt_of_ne hne with hlt | hgt
  · obtain ⟨k, rfl⟩ : ∃ k, m = k + 1 := ⟨m - 1, by omega⟩
    have hl := h.lower_le k rfl
    have hn : exact n ≤ exact k := exact_strictMono.monotone (Nat.le_of_lt_succ hlt)
    apply h.even_of_lower k rfl
    rcases abs_eq_abs.mp he with hs | hs
    · exact absurd (by linarith) hxm
    · rw [halfway] at hl ⊢
      linarith
  · have hu := h.le_upper
    have hn : exact (m + 1) ≤ exact n := exact_strictMono.monotone hgt
    apply h.even_of_upper
    rcases abs_eq_abs.mp he with hs | hs
    · exact absurd (by linarith) hxm
    · rw [halfway] at hu ⊢
      linarith

theorem exists_roundsTo (hx : 0 ≤ x) : ∃ m, RoundsTo x m := by
  have hn : (x.num.toNat : ℚ) = x.num := by
    exact_mod_cast Int.toNat_of_nonneg (Rat.num_nonneg.mpr hx)
  have hq : ((x.num.toNat * unitsPerOne : Nat) / x.den / unitsPerOne : ℚ) = x := by
    have hu := unitsPerOne_pos.ne'
    rw [Nat.cast_mul, hn, mul_div_right_comm, mul_div_cancel_right₀ _ hu, Rat.num_div_den]
  exact ⟨_, hq ▸ @nearestMagnitude_rounds (x.num.toNat * unitsPerOne) _ x.den_pos⟩

theorem halfway_greatest : halfway (infinity - 1) = 2 ^ 128 - 2 ^ 103 := by
  norm_num [halfway, exact, units, significand, shift, unitsPerOne, Nat.shiftLeft_eq]

theorem RoundsTo.lt_infinity_iff (h : RoundsTo x m) :
    m < infinity ↔ x < 2 ^ 128 - 2 ^ 103 := by
  rw [← halfway_greatest]
  constructor
  · intro hm
    have hle : halfway m ≤ halfway (infinity - 1) :=
      halfway_strictMono.monotone (Nat.le_sub_one_of_lt hm)
    refine lt_of_le_of_ne (h.le_upper.trans hle) fun he => ?_
    -- only the greatest finite magnitude could reach that middle, and it is odd
    have hg : m = infinity - 1 :=
      halfway_strictMono.injective (le_antisymm hle (he ▸ h.le_upper))
    exact absurd (h.even_of_upper (hg ▸ he)) (hg ▸ by decide)
  · intro hx
    by_contra hm
    have hi : infinity ≤ m := Nat.le_of_not_lt hm
    have hp : 0 < m := Nat.lt_of_lt_of_le (by decide) hi
    obtain ⟨k, rfl⟩ := Nat.exists_eq_add_one.mpr hp
    have hk : halfway (infinity - 1) ≤ halfway k :=
      halfway_strictMono.monotone (Nat.sub_le_of_le_add hi)
    exact absurd (hk.trans (h.lower_le k rfl)) hx.not_ge

theorem RoundsTo.eq_zero_iff (h : RoundsTo x m) : m = 0 ↔ x ≤ (2 ^ 150)⁻¹ := by
  rw [← halfway_zero]
  exact ⟨fun hm => hm ▸ h.le_upper, fun hx => h.unique (roundsTo_zero hx)⟩

theorem isNearest_of_roundsTo {w : Weight} (hw : w.IsFinite) (hx : 0 ≤ x)
    (h : RoundsTo x w.magnitude) : IsNearest (withSign w.isNegative x) w := by
  have hself : |withSign w.isNegative x - w.value| = |x - exact w.magnitude| :=
    abs_withSign_sub _ _ _
  -- a weight of the other sign is no nearer than the zero of the same sign
  have hacross : ∀ v : Weight, w.isNegative ≠ v.isNegative →
      |withSign w.isNegative x - v.value| = |x - exact 0| + exact v.magnitude := by
    intro v hv
    have hxv : 0 ≤ x + exact v.magnitude := add_nonneg hx (exact_nonneg _)
    rw [value, abs_withSign_sub_of_ne hv, abs_of_nonneg hxv, exact_zero, sub_zero, abs_of_nonneg hx]
  refine ⟨hw, fun v _ => ?_, fun v _ hne he => ?_⟩
  · by_cases hv : w.isNegative = v.isNegative
    · rw [hself, value, ← hv, abs_withSign_sub]
      exact h.abs_sub_le _
    · rw [hself, hacross v hv]
      have h0 := h.abs_sub_le 0
      have hn := exact_nonneg v.magnitude
      linarith
  · rw [significand_mod_two]
    by_cases hv : w.isNegative = v.isNegative
    · rw [hself, value, ← hv, abs_withSign_sub] at he
      refine h.even_of_abs_sub_eq (fun hm => hne ?_) he
      rw [value, value, hv, hm]
    · rw [hself, hacross v hv] at he
      have h0 := h.abs_sub_le 0
      have hn := exact_nonneg v.magnitude
      by_cases hz : w.magnitude = 0
      · rw [hz]
      · exact h.even_of_abs_sub_eq (Ne.symm hz) (by linarith)

end

end Weight

namespace Decimal

theorem value_nonneg (d : Decimal) : 0 ≤ d.value :=
  mul_nonneg (Nat.cast_nonneg _) (zpow_nonneg (by norm_num) _)

theorem roundsTo_magnitude {d : Decimal} (h : d.value < 2 ^ 128 - 2 ^ 103) :
    Weight.RoundsTo d.value d.magnitude ∧ d.magnitude < Weight.infinity := by
  obtain ⟨m, hm⟩ := Weight.exists_roundsTo d.value_nonneg
  have hf : m < Weight.infinity := hm.lt_infinity_iff.mpr h
  rw [(magnitude_eq_iff hf).mpr hm]
  exact ⟨hm, hf⟩

end Decimal

namespace Numeral

variable {n : Numeral}

/-- The exact value of a numeral, its sign left out. -/
def size (n : Numeral) : ℚ :=
  (Nat.ofDigitChars 10 n.whole 0 +
      Nat.ofDigitChars 10 (n.fraction.getD []) 0 / 10 ^ (n.fraction.getD []).length) *
    10 ^ (n.scale.map Scale.value).getD 0

def value (n : Numeral) : ℚ := withSign n.isNegative n.size

theorem digits_decimal (n : Numeral) :
    n.decimal.digits = 10 ^ (n.fraction.getD []).length * Nat.ofDigitChars 10 n.whole 0 +
      Nat.ofDigitChars 10 (n.fraction.getD []) 0 := by
  rw [decimal, Nat.ofDigitChars_append, Nat.ofDigitChars_eq_ofDigitChars_zero]

theorem value_decimal (n : Numeral) : n.decimal.value = n.size := by
  have hp : (10 : ℚ) ^ (n.fraction.getD []).length ≠ 0 := pow_ne_zero _ (by norm_num)
  rw [size, Decimal.value, digits_decimal, decimal, zpow_sub₀ (by norm_num), zpow_natCast]
  push_cast
  field_simp

theorem size_nonneg (n : Numeral) : 0 ≤ n.size := n.value_decimal ▸ n.decimal.value_nonneg

end Numeral

namespace Weight

variable {n : Numeral} {token : String}

theorem ofText?_of_toList (hn : n.WellFormed) (ht : token.toList = n.toList) :
    ofText? token = ofDecimal? n.isNegative n.decimal := by
  rw [ofText?, ht, Numeral.parse?_toList hn]
  rfl

/-- A token that is a numeral within the range of the finite weights reads as the nearest weight,
with the sign of the token even where the weight is a zero. -/
theorem ofText?_isNearest (hn : n.WellFormed) (ht : token.toList = n.toList)
    (hx : |n.value| < 2 ^ 128 - 2 ^ 103) :
    ∃ w, ofText? token = some w ∧ IsNearest n.value w ∧ w.isNegative = n.isNegative ∧
      (w.IsZero ↔ |n.value| ≤ (2 ^ 150)⁻¹) := by
  have habs : |n.value| = n.decimal.value := by
    rw [Numeral.value, abs_withSign, abs_of_nonneg n.size_nonneg, n.value_decimal]
  rw [habs] at hx ⊢
  obtain ⟨hr, hf⟩ := Decimal.roundsTo_magnitude hx
  have hs : n.decimal.magnitude < signBit := Nat.lt_trans hf (by decide)
  refine ⟨ofParts n.isNegative n.decimal.magnitude, ?_, ?_, isNegative_ofParts hs, ?_⟩
  · rw [ofText?_of_toList hn ht, ofDecimal?, if_pos hf]
  · have hw := @isNearest_of_roundsTo _ (ofParts n.isNegative n.decimal.magnitude)
      (by rw [IsFinite, magnitude_ofParts hs]; exact hf) n.decimal.value_nonneg
      (by rw [magnitude_ofParts hs]; exact hr)
    rwa [isNegative_ofParts hs, n.value_decimal] at hw
  · rw [IsZero, magnitude_ofParts hs]
    exact hr.eq_zero_iff

/-- The seventh digit after the point decides between two weights, one of which is even. -/
theorem ofText?_isNearest_small :
    ofText? "-16777217.0000001" = some ⟨0xcb800001⟩ ∧
      IsNearest (-(167772170000001 / 10 ^ 7)) ⟨0xcb800001⟩ := by
  let n : Numeral := ⟨.minus, ['1', '6', '7', '7', '7', '2', '1', '7'],
    some ['0', '0', '0', '0', '0', '0', '1'], none⟩
  have hv : n.value = -(167772170000001 / 10 ^ 7) := by
    have hw : Nat.ofDigitChars 10 n.whole 0 = 16777217 := by decide
    have hf : Nat.ofDigitChars 10 (n.fraction.getD []) 0 = 1 := by decide
    have hl : (n.fraction.getD []).length = 7 := rfl
    have hs : (n.scale.map Scale.value).getD 0 = 0 := rfl
    have hm : n.isNegative = true := rfl
    rw [Numeral.value, Numeral.size, hw, hf, hl, hs, hm, withSign]
    norm_num
  have hn : n.WellFormed := ⟨by simp [n], by decide, by simp [n]⟩
  have hr : ofText? "-16777217.0000001" = some ⟨0xcb800001⟩ := by decide +kernel
  obtain ⟨w, hw, hx, _, _⟩ := @ofText?_isNearest n "-16777217.0000001" hn (by decide)
    (by rw [hv]; norm_num [abs_of_neg])
  rw [hr] at hw
  exact ⟨hr, hv ▸ Option.some.inj hw ▸ hx⟩

end Weight

end WeightTables
