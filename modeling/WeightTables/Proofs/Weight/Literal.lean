import WeightTables.Proofs.Decimal
import WeightTables.Weight.Literal

/-! The literal of a finite weight is a written numeral that reads back as that weight. That of any
other weight is a word that stands for no weight. -/

namespace WeightTables.Weight

theorem magnitude_of_onGrid? {m : Nat} {e : Int} {d : Decimal} (h : onGrid? m e = some d) :
    d.magnitude = m := by
  unfold onGrid? at h
  dsimp only at h
  split at h
  · rename_i hb
    exact Option.some.inj h ▸ hb.1
  · split at h
    · rename_i ha
      exact Option.some.inj h ▸ ha
    · exact absurd h (by simp)

/-- The exact value of a magnitude as a decimal with all its digits. -/
def exactDecimal (m : Nat) : Decimal := ⟨units m * (tenPow 149 / unitsPerOne), -149⟩

theorem value_exactDecimal (m : Nat) : (exactDecimal m).value = exact m := by
  have hf : tenPow 149 / unitsPerOne = 5 ^ 149 := by decide +kernel
  have hu : unitsPerOne = 2 ^ 149 := by decide +kernel
  rw [exactDecimal, Decimal.value_of_nonpos (by simp), hf, exact, hu]
  push_cast
  ring

theorem magnitude_shortest {m : Nat} (hm : m < infinity) : (shortest m).magnitude = m := by
  rw [shortest]
  by_cases hz : m = 0
  · rw [if_pos hz, hz]; rfl
  · rw [if_neg hz]
    cases hf : (List.range 10).findSome? fun n => onGrid? m (leadingExponent m - (n : Nat)) with
    | some d =>
      obtain ⟨n, _, hn⟩ := List.exists_of_findSome?_eq_some hf
      exact magnitude_of_onGrid? hn
    | none =>
      have hv := roundsTo_exact m
      rw [← value_exactDecimal] at hv
      exact (Decimal.magnitude_eq_iff hm).mpr hv

def magnitudeNumeral (m : Nat) : Numeral :=
  if Positional m then (shortest m).positionalNumeral else (shortest m).scientificNumeral

theorem toList_magnitudeNumeral (m : Nat) : (magnitudeNumeral m).toList = finiteLiteral m := by
  rw [magnitudeNumeral, finiteLiteral]
  split
  · exact (shortest m).toList_positionalNumeral
  · exact (shortest m).toList_scientificNumeral

theorem sign_magnitudeNumeral (m : Nat) : (magnitudeNumeral m).sign = .unsigned := by
  rw [magnitudeNumeral]
  split
  · exact (shortest m).sign_positionalNumeral
  · rfl

theorem wellFormed_magnitudeNumeral (m : Nat) : (magnitudeNumeral m).WellFormed := by
  rw [magnitudeNumeral]
  split
  · exact (shortest m).wellFormed_positionalNumeral
  · exact (shortest m).wellFormed_scientificNumeral

theorem value_magnitudeNumeral (m : Nat) :
    (magnitudeNumeral m).decimal.value = (shortest m).value := by
  rw [magnitudeNumeral]
  split
  · exact (shortest m).value_positionalNumeral
  · exact congrArg Decimal.value (shortest m).decimal_scientificNumeral

theorem magnitude_magnitudeNumeral {m : Nat} (h : m < infinity) :
    (magnitudeNumeral m).decimal.magnitude = m := by
  have hm := magnitude_shortest h
  have hv := Decimal.magnitude_eq_of_value_eq (value_magnitudeNumeral m).symm (hm.trans_lt h)
  exact hv.trans hm

def literalNumeral (w : Weight) : Numeral := (magnitudeNumeral w.magnitude).signed w.isNegative

theorem wellFormed_literalNumeral (w : Weight) : w.literalNumeral.WellFormed :=
  Numeral.wellFormed_signed (wellFormed_magnitudeNumeral w.magnitude)

variable {w : Weight}

theorem toList_literal (h : w.IsFinite) : w.literal.toList = w.literalNumeral.toList := by
  have hn : ¬ w.IsNaN := Nat.not_lt.mpr (Nat.le_of_lt h)
  rw [literal, if_neg hn, if_pos h, String.toList_ofList, literalNumeral,
    Numeral.toList_signed (sign_magnitudeNumeral _), toList_magnitudeNumeral, signText]

theorem ofText?_literal (h : w.IsFinite) : ofText? w.literal = some w := by
  have hd : w.literalNumeral.decimal.magnitude = w.magnitude := magnitude_magnitudeNumeral h
  have hs : w.literalNumeral.isNegative = w.isNegative :=
    Numeral.isNegative_signed (sign_magnitudeNumeral _)
  rw [ofText?, toList_literal h, Numeral.parse?_toList w.wellFormed_literalNumeral,
    Option.bind_some, ofNumeral?, ofDecimal?, hd, hs, if_pos h, ofParts_isNegative_magnitude]

theorem isFinite_of_ofText? {t : String} (h : ofText? t = some w) : w.IsFinite := by
  obtain ⟨n, _, hn⟩ := Option.bind_eq_some_iff.mp h
  unfold ofNumeral? ofDecimal? at hn
  split at hn
  · rename_i hm
    have hs : n.decimal.magnitude < signBit := Nat.lt_trans hm (by decide)
    rw [← Option.some.inj hn, IsFinite, magnitude_ofParts hs]
    exact hm
  · exact absurd hn (by simp)

theorem literal_ne_empty (h : w.IsFinite) : w.literal ≠ "" := by
  intro he
  have hl := toList_literal h
  rw [he] at hl
  exact Numeral.toList_ne_nil w.wellFormed_literalNumeral hl.symm

theorem isNumeralChar_of_mem_literal (h : w.IsFinite) {c : Char} (hc : c ∈ w.literal.toList) :
    Numeral.IsNumeralChar c :=
  Numeral.isNumeralChar_of_mem_toList w.wellFormed_literalNumeral (toList_literal h ▸ hc)

/-- The literal of a weight that is not finite. Of a pattern that is no number neither the sign nor
the payload shows. -/
def word (w : Weight) : String := if w.IsNaN then "NaN" else if w.isNegative then "-inf" else "inf"

theorem literal_of_not_isFinite (h : ¬ w.IsFinite) : w.literal = w.word := by
  rw [literal, word, if_neg h, signText]
  split
  · rfl
  · split <;> rfl

theorem word_cases (w : Weight) : w.word = "NaN" ∨ w.word = "-inf" ∨ w.word = "inf" := by
  rw [word]
  split
  · exact .inl rfl
  · split
    · exact .inr (.inl rfl)
    · exact .inr (.inr rfl)

theorem mem_letters_of_mem_word {c : Char} (hc : c ∈ w.word.toList) :
    c ∈ ['N', 'a', '-', 'i', 'n', 'f'] := by
  have hs : ∀ s ∈ ["NaN", "-inf", "inf"], s.toList ⊆ ['N', 'a', '-', 'i', 'n', 'f'] := by decide
  exact hs w.word (by simpa using w.word_cases) hc

theorem ofText?_word (w : Weight) : ofText? w.word = none := by
  rcases w.word_cases with h | h | h <;> rw [h] <;> rfl

end WeightTables.Weight
