import WeightTables.Proofs.Decimal
import WeightTables.Proofs.Numeral.Significant

/-! Numerals in the form of the exporter: four digits after the point, a whole part below `1024`
without idle zeros, and no sign but a minus. Such a numeral is given back by its sign and by its
digits as a number. -/

namespace WeightTables

section

variable {ds es : List Char}

theorem eq_of_toNat_sub_eq {c d : Char} (hc : c.isDigit) (hd : d.isDigit)
    (h : c.toNat - '0'.toNat = d.toNat - '0'.toNat) : c = d := by
  have hc' : 48 ≤ c.toNat ∧ c.toNat ≤ 57 := Char.isDigit_iff_toNat.mp hc
  have hd' : 48 ≤ d.toNat ∧ d.toNat ≤ 57 := Char.isDigit_iff_toNat.mp hd
  have hz : '0'.toNat = 48 := rfl
  exact Char.toNat_inj.mp (by omega)

/-- Rows of digits of one length that stand for the same number are the same. -/
theorem eq_of_ofDigitChars_eq (hd : ∀ c ∈ ds, c.isDigit) (he : ∀ c ∈ es, c.isDigit)
    (hl : ds.length = es.length) (h : Nat.ofDigitChars 10 ds 0 = Nat.ofDigitChars 10 es 0) :
    ds = es := by
  induction ds generalizing es with
  | nil => exact (List.length_eq_zero_iff.mp hl.symm).symm
  | cons c ds ih =>
    cases es with
    | nil => exact absurd hl (by simp)
    | cons e es =>
      have hl : ds.length = es.length := Nat.succ.inj hl
      obtain ⟨hc, hd⟩ := List.forall_mem_cons.mp hd
      obtain ⟨hce, he⟩ := List.forall_mem_cons.mp he
      have hlt := ofDigitChars_lt hd
      have hle := ofDigitChars_lt he
      have hp : 0 < 10 ^ es.length := Nat.pow_pos (by decide)
      rw [ofDigitChars_cons_zero, ofDigitChars_cons_zero, hl] at h
      rw [hl] at hlt
      obtain ⟨hhead, htail⟩ := (Nat.div_mod_unique hp).mpr ⟨(Nat.add_comm _ _).trans h, hlt⟩
      obtain ⟨hhead', htail'⟩ := (Nat.div_mod_unique hp).mpr ⟨Nat.add_comm _ _, hle⟩
      rw [eq_of_toNat_sub_eq hc hce (hhead.symm.trans hhead'), ih hd he hl (htail.symm.trans htail')]

/-- Without idle zeros in front, the digits of a number are the only ones that stand for it. -/
theorem toDigits_ofDigitChars (hd : ∀ c ∈ ds, c.isDigit)
    (hz : ds = ['0'] ∨ ∃ c rest, ds = c :: rest ∧ c ≠ '0') :
    Nat.toDigits 10 (Nat.ofDigitChars 10 ds 0) = ds := by
  rcases hz with rfl | ⟨c, rest, rfl, hc⟩
  · decide
  · have hlow := le_ofDigitChars hd (List.cons_ne_nil c rest) fun d h => Option.some.inj h ▸ hc
    have hpos := (Nat.pow_pos (by decide)).trans_le hlow
    have hl := (length_digits_eq_iff hpos).mpr ⟨hlow, ofDigitChars_lt hd⟩
    refine eq_of_ofDigitChars_eq (fun _ => isDigit_of_mem_digits) hd hl ?_
    exact Nat.ofDigitChars_ten_toDigits

theorem toDigits_zero_or_head_ne_zero (n : Nat) :
    Nat.toDigits 10 n = ['0'] ∨ ∃ c rest, Nat.toDigits 10 n = c :: rest ∧ c ≠ '0' := by
  obtain ⟨c, rest, h⟩ := List.exists_cons_of_ne_nil (Nat.toDigits_ne_nil (b := 10) (n := n))
  by_cases hc : c = '0'
  · left
    obtain rfl := hc
    rw [h, List.cons_eq_cons]
    refine ⟨rfl, ?_⟩
    by_contra hne
    have hd : ∀ d ∈ rest, d.isDigit := by
      intro d hd
      have hm : d ∈ Nat.toDigits 10 n := h ▸ List.mem_cons_of_mem _ hd
      exact isDigit_of_mem_digits hm
    -- the other digits alone would stand for the number, so it is too small for all of them
    have hn : n = Nat.ofDigitChars 10 rest 0 := by
      have hv : Nat.ofDigitChars 10 (Nat.toDigits 10 n) 0 = n := Nat.ofDigitChars_ten_toDigits
      rw [h, ofDigitChars_cons_zero, Nat.sub_self, Nat.mul_zero, Nat.zero_add] at hv
      exact hv.symm
    have hlt : n < 10 ^ rest.length := hn.symm ▸ ofDigitChars_lt hd
    have hl := (Nat.length_toDigits_le_iff (by decide) (List.length_pos_iff.mpr hne)).mpr hlt
    rw [h, List.length_cons] at hl
    omega
  · exact .inr ⟨c, rest, h, hc⟩

end

namespace Numeral

def text (n : Numeral) : String := String.ofList n.toList

/-- The form `-?(0|[1-9][0-9]*).dddd` with a whole part of at most `1023`. -/
structure Printed (n : Numeral) : Prop where
  wellFormed : n.WellFormed
  sign : n.sign ≠ .plus
  whole : n.whole = ['0'] ∨ ∃ c rest, n.whole = c :: rest ∧ c ≠ '0'
  fraction : ∃ ds, n.fraction = some ds ∧ ds.length = 4
  scale : n.scale = none
  bound : Nat.ofDigitChars 10 n.whole 0 ≤ 1023

variable {n : Numeral}

theorem Printed.digits_split (h : n.Printed) :
    ∃ ds, n.fraction = some ds ∧ ds.length = 4 ∧ (∀ c ∈ ds, c.isDigit) ∧
      n.decimal.digits / tenPow 4 = Nat.ofDigitChars 10 n.whole 0 ∧
      n.decimal.digits % tenPow 4 = Nat.ofDigitChars 10 ds 0 := by
  obtain ⟨ds, hf, hl⟩ := h.fraction
  have hd : ∀ c ∈ ds, c.isDigit := fun c hc => h.wellFormed.1 c (by simp [hf, hc])
  have hlt : Nat.ofDigitChars 10 ds 0 < tenPow 4 := hl ▸ ofDigitChars_lt hd
  have hdigits : Nat.ofDigitChars 10 ds 0 + tenPow 4 * Nat.ofDigitChars 10 n.whole 0 =
      n.decimal.digits := by
    rw [n.digits_decimal, hf, Option.getD_some, hl, Nat.add_comm, Decimal.tenPow_eq]
  exact ⟨ds, hf, hl, hd, (Nat.div_mod_unique (by decide)).mpr ⟨hdigits, hlt⟩⟩

theorem Printed.eq_fixedNumeral (h : n.Printed) :
    n = (fixedNumeral n.decimal.digits 4).signed n.isNegative := by
  obtain ⟨ds, hf, hl, hd, hdiv, hmod⟩ := h.digits_split
  have hw : Nat.toDigits 10 (n.decimal.digits / tenPow 4) = n.whole := by
    rw [hdiv]
    exact toDigits_ofDigitChars (fun c hc => h.wellFormed.1 c (List.mem_append_left _ hc)) h.whole
  have hr : (Nat.toDigits 10 (n.decimal.digits % tenPow 4)).leftpad 4 '0' = ds := by
    apply eq_of_ofDigitChars_eq (fun _ => isDigit_of_mem_leftpad fun _ => isDigit_of_mem_digits) hd
    · rw [length_fraction_fixedNumeral _ (by decide), hl]
    · rw [ofDigitChars_leftpad, Nat.ofDigitChars_ten_toDigits, hmod]
  have hs : n.sign = if n.isNegative then .minus else .unsigned := by
    have hplus := h.sign
    cases hn : n.sign with
    | unsigned => simp [isNegative, hn]
    | plus => exact absurd hn hplus
    | minus => simp [isNegative, hn]
  obtain ⟨sign, whole, fraction, scale⟩ := n
  simp only [signed, fixedNumeral, mk.injEq]
  exact ⟨hs, hw.symm, hf.trans (congrArg some hr.symm), h.scale⟩

theorem Printed.toList_eq (h : n.Printed) :
    n.toList = (if n.isNegative then ['-'] else []) ++ fixedPoint n.decimal.digits 4 := by
  rw [← toList_fixedNumeral, ← toList_signed rfl, ← h.eq_fixedNumeral]

theorem Printed.size_eq (h : n.Printed) : n.size = n.decimal.digits / 10 ^ 4 := by
  have he : n.decimal.exponent = -4 := by
    obtain ⟨ds, hf, hl⟩ := h.fraction
    rw [decimal, hf, h.scale, Option.getD_some, hl]
    rfl
  rw [← n.value_decimal, Decimal.value_of_nonpos (by omega), he]
  norm_cast

theorem Printed.digits_lt (h : n.Printed) : n.decimal.digits < 1024 * 10 ^ 4 := by
  obtain ⟨_, _, _, _, hdiv, _⟩ := h.digits_split
  have hb := h.bound
  rw [← hdiv, Decimal.tenPow_eq] at hb
  omega

theorem printed_fixedNumeral {k : Nat} (negative : Bool) (hk : k < 1024 * 10 ^ 4) :
    ((fixedNumeral k 4).signed negative).Printed where
  wellFormed := wellFormed_signed (wellFormed_fixedNumeral k 4)
  sign := by cases negative <;> simp [signed, fixedNumeral]
  whole := toDigits_zero_or_head_ne_zero _
  fraction := ⟨_, rfl, length_fraction_fixedNumeral k (by decide)⟩
  scale := rfl
  bound := by
    have hw : Nat.ofDigitChars 10 ((fixedNumeral k 4).signed negative).whole 0 = k / tenPow 4 :=
      Nat.ofDigitChars_ten_toDigits
    rw [hw, Decimal.tenPow_eq]
    omega

end Numeral

end WeightTables
