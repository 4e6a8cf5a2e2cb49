import WeightTables.Proofs.Numeral.Grammar
import WeightTables.Proofs.Weight.Reading

/-! The texts that can be read as a weight are the numerals that lie within the finite weights by
less than half a step. Everything else is refused: what is no numeral as a whole, for want of digits
or because of another character in it, and what is too large, however it is written. -/

namespace WeightTables

theorem Decimal.magnitude_lt_infinity_iff {d : Decimal} :
    d.magnitude < Weight.infinity ↔ d.value < 2 ^ 128 - 2 ^ 103 := by
  constructor
  · intro h
    exact ((Decimal.magnitude_eq_iff h).mp rfl).lt_infinity_iff.mp h
  · exact fun h => (Decimal.roundsTo_magnitude h).2

theorem Numeral.abs_value (n : Numeral) : |n.value| = n.decimal.value := by
  rw [Numeral.value, abs_withSign, abs_of_nonneg n.size_nonneg, n.value_decimal]

theorem Numeral.ne_letter_of_isNumeralChar {c : Char} (h : Numeral.IsNumeralChar c) :
    c.toLower ≠ 'n' := by
  rcases h with h | h
  · have hd : 48 ≤ c.toNat ∧ c.toNat ≤ 57 := Char.isDigit_iff_toNat.mp h
    have hu : ¬ (c.val ≥ 'A'.val ∧ c.val ≤ 'Z'.val) := by
      rintro ⟨ha, _⟩
      have hn : 65 ≤ c.toNat := ha
      omega
    have hl : c.toLower = c := dif_neg hu
    rw [hl]
    rintro rfl
    exact absurd hd (by decide)
  · simp only [List.mem_cons, List.not_mem_nil, or_false] at h
    rcases h with rfl | rfl | rfl | rfl | rfl <;> decide

namespace Weight

variable {t : String} {n : Numeral}

theorem ofText?_of_numeral (hn : n.WellFormed) (ht : t.toList = n.toList) :
    (∃ w, ofText? t = some w) ↔ |n.value| < 2 ^ 128 - 2 ^ 103 := by
  rw [ofText?_of_toList hn ht, ofDecimal?, n.abs_value, ← Decimal.magnitude_lt_infinity_iff]
  by_cases h : n.decimal.magnitude < infinity
  · simp [h]
  · simp [h]

theorem exists_numeral {w : Weight} (h : ofText? t = some w) :
    ∃ n : Numeral, n.WellFormed ∧ t.toList = n.toList := by
  obtain ⟨n, hp, _⟩ := Option.bind_eq_some_iff.mp h
  obtain ⟨hn, ht⟩ := Numeral.parse?_eq_some_iff.mp hp
  exact ⟨n, hn, ht.symm⟩

theorem ofText?_eq_none (h : ∀ n : Numeral, n.WellFormed → t.toList ≠ n.toList) :
    ofText? t = none := by
  cases hw : ofText? t with
  | none => rfl
  | some w =>
    obtain ⟨n, hn, ht⟩ := exists_numeral hw
    exact absurd ht (h n hn)

end Weight

/-- Which texts are read, and which kinds of texts are therefore refused. -/
structure Accepts (t : String) : Prop where
  exactly : (∃ w, Weight.ofText? t = some w) ↔
    ∃ n : Numeral, n.WellFormed ∧ t.toList = n.toList ∧ |n.value| < 2 ^ 128 - 2 ^ 103
  tooLarge : ∀ n : Numeral, n.WellFormed → t.toList = n.toList →
    2 ^ 128 - 2 ^ 103 ≤ |n.value| → Weight.ofText? t = none
  noDigit : (∀ c ∈ t.toList, ¬ c.isDigit) → Weight.ofText? t = none
  foreign : ∀ c ∈ t.toList, ¬ Numeral.IsNumeralChar c → Weight.ofText? t = none
  unfinished : ∀ front mark (sign : Sign), mark = 'e' ∨ mark = 'E' →
    t.toList = front ++ mark :: sign.toList → Weight.ofText? t = none
  word : ∀ (sign : Sign) (cs : List Char),
    cs.map Char.toLower ∈ ["inf", "infinity", "nan"].map String.toList →
      t.toList = sign.toList ++ cs → Weight.ofText? t = none

theorem ofText?_accepts (t : String) : Accepts t where
  exactly := by
    constructor
    · rintro ⟨w, hw⟩
      obtain ⟨n, hn, ht⟩ := Weight.exists_numeral hw
      exact ⟨n, hn, ht, (Weight.ofText?_of_numeral hn ht).mp ⟨w, hw⟩⟩
    · rintro ⟨n, hn, ht, hx⟩
      exact (Weight.ofText?_of_numeral hn ht).mpr hx
  tooLarge n hn ht hx := by
    cases hw : Weight.ofText? t with
    | none => rfl
    | some w => exact absurd ((Weight.ofText?_of_numeral hn ht).mp ⟨w, hw⟩) hx.not_gt
  noDigit h := by
    apply Weight.ofText?_eq_none
    intro n hn ht
    obtain ⟨c, hc, hd⟩ := Numeral.exists_digit hn
    exact h c (ht ▸ hc) hd
  foreign c hc h := by
    apply Weight.ofText?_eq_none
    intro n hn ht
    exact h (Numeral.isNumeralChar_of_mem_toList hn (ht ▸ hc))
  unfinished front mark sign hm h := by
    apply Weight.ofText?_eq_none
    intro n hn ht
    have hlast : ∃ c, n.toList.getLast? = some c ∧ ¬ (c.isDigit ∨ c = '.') := by
      rw [← ht, h]
      cases sign with
      | unsigned => exact ⟨mark, by simp [Sign.toList], by rcases hm with rfl | rfl <;> decide⟩
      | plus => exact ⟨'+', by simp [Sign.toList], by decide⟩
      | minus => exact ⟨'-', by simp [Sign.toList], by decide⟩
    obtain ⟨c, hc, hno⟩ := hlast
    exact hno (Numeral.last_toList hn hc)
  word sign cs hcs h := by
    have hall : ∀ ds ∈ ["inf", "infinity", "nan"].map String.toList, 'n' ∈ ds := by decide
    obtain ⟨c, hc, hl⟩ := List.mem_map.mp (hall _ hcs)
    apply Weight.ofText?_eq_none
    intro n hn ht
    have hm : c ∈ n.toList := by simp [← ht, h, hc]
    exact Numeral.ne_letter_of_isNumeralChar (Numeral.isNumeralChar_of_mem_toList hn hm) hl

/-- Half a step beyond the greatest weight is too large, and just below it is not. -/
theorem ofText?_accepts_small :
    Weight.ofText? "340282356779733661637539395458142568448e0" = none ∧
      Weight.ofText? "34028235677973366163753939545814256844799999e-5" = some ⟨0x7f7fffff⟩ ∧
      Weight.ofText? "1E+" = none ∧ Weight.ofText? "-iNfInItY" = none := by
  let n : Numeral := ⟨.unsigned, "340282356779733661637539395458142568448".toList, none,
    some ⟨'e', .unsigned, ['0']⟩⟩
  have hp : Numeral.parse? "340282356779733661637539395458142568448e0".toList = some n := by
    decide +kernel
  obtain ⟨hn, ht⟩ := Numeral.parse?_eq_some_iff.mp hp
  have hd : n.decimal = ⟨340282356779733661637539395458142568448, 0⟩ := by decide +kernel
  have hx : 2 ^ 128 - 2 ^ 103 ≤ |n.value| := by
    rw [n.abs_value, hd, Decimal.value]
    norm_num
  have hmark := (ofText?_accepts "1E+").unfinished ['1'] 'E' .plus (.inr rfl) (by decide)
  have hword := (ofText?_accepts "-iNfInItY").word .minus "iNfInItY".toList (by decide) (by decide)
  exact ⟨(ofText?_accepts _).tooLarge n hn ht.symm hx, by decide +kernel, hmark, hword⟩

end WeightTables
