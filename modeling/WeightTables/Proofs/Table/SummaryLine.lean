import WeightTables.Proofs.Loading
import WeightTables.Proofs.Numeral.Printed
import WeightTables.Proofs.Weight.Fixed
import WeightTables.Proofs.Weight.Order
import WeightTables.Summary

/-! The summary line of a text as the exporter prints it. The weights of its numerals are in the
order of the numerals and show the same digits again, so the line repeats the least and the greatest
token as they were written. -/

namespace WeightTables

namespace Numeral

/-- The weight that a numeral reads as, if it is not too large for one. -/
def weight (n : Numeral) : Weight := .ofParts n.isNegative n.decimal.magnitude

/-- Ascending by value, with a negative zero below the other one. -/
def AtMost (a b : Numeral) : Prop :=
  a.value < b.value ∨ a.value = b.value ∧ (a.isNegative ∨ ¬ b.isNegative)

variable {a b n : Numeral}

theorem Printed.roundsTo (h : n.Printed) :
    Weight.RoundsTo n.size n.decimal.magnitude ∧ n.decimal.magnitude < Weight.infinity := by
  have hd : (n.decimal.digits : ℚ) ≤ 1024 * 10 ^ 4 := by exact_mod_cast h.digits_lt.le
  have hx : n.decimal.value < 2 ^ 128 - 2 ^ 103 := by
    rw [n.value_decimal, h.size_eq, div_lt_iff₀ (by norm_num)]
    exact hd.trans_lt (by norm_num)
  rw [← n.value_decimal]
  exact Decimal.roundsTo_magnitude hx

theorem Printed.magnitude_weight (h : n.Printed) : n.weight.magnitude = n.decimal.magnitude :=
  Weight.magnitude_ofParts (Nat.lt_trans h.roundsTo.2 (by decide))

theorem Printed.isNegative_weight (h : n.Printed) : n.weight.isNegative = n.isNegative :=
  Weight.isNegative_ofParts (Nat.lt_trans h.roundsTo.2 (by decide))

theorem Printed.ofText?_text (h : n.Printed) : Weight.ofText? n.text = some n.weight := by
  have ht : n.text.toList = n.toList := String.toList_ofList
  rw [Weight.ofText?_of_toList h.wellFormed ht, Weight.ofDecimal?, if_pos h.roundsTo.2]
  rfl

theorem Printed.scaled_weight (h : n.Printed) :
    Weight.scaled n.weight.magnitude 4 = n.decimal.digits := by
  have hr := h.roundsTo.1
  rw [h.size_eq] at hr
  rw [h.magnitude_weight]
  exact Weight.scaled_four hr h.digits_lt.le

theorem Printed.fixed_weight (h : n.Printed) : n.weight.fixed 4 = n.text := by
  have hf : n.weight.IsFinite := h.magnitude_weight.trans_lt h.roundsTo.2
  rw [Weight.fixed, if_neg (Nat.not_lt.mpr hf.le), if_pos hf, Weight.signText, h.isNegative_weight,
    h.scaled_weight, text, h.toList_eq]

theorem Printed.magnitude_le_iff (ha : a.Printed) (hb : b.Printed) :
    a.weight.magnitude ≤ b.weight.magnitude ↔ a.size ≤ b.size := by
  have hra := ha.roundsTo.1
  have hrb := hb.roundsTo.1
  rw [← ha.magnitude_weight] at hra
  rw [← hb.magnitude_weight] at hrb
  refine hra.le_iff hrb fun h => ?_
  rw [ha.size_eq, hb.size_eq, ← ha.scaled_weight, ← hb.scaled_weight, h]

theorem Printed.weight_le_iff (ha : a.Printed) (hb : b.Printed) :
    a.weight ≤ b.weight ↔ a.AtMost b := by
  have hsa := a.size_nonneg
  have hsb := b.size_nonneg
  rw [Weight.le_iff, Weight.rank, Weight.rank, ha.isNegative_weight, hb.isNegative_weight, AtMost,
    value, value]
  cases hna : a.isNegative <;> cases hnb : b.isNegative
  · have hle := ha.magnitude_le_iff hb
    simp only [Bool.false_eq_true, if_false, withSign, not_false_eq_true, or_true, and_true]
    rw [Int.ofNat_le, hle, le_iff_lt_or_eq]
  · -- a numeral without a minus is not even a zero below one with a minus
    simp only [Bool.false_eq_true, if_false, if_true, withSign, not_true_eq_false, or_self,
      and_false, or_false]
    exact iff_of_false (by omega) (by linarith)
  · simp only [Bool.false_eq_true, if_false, if_true, withSign, true_or, and_true]
    exact iff_of_true (by omega) (lt_or_eq_of_le (by linarith))
  · have hle := hb.magnitude_le_iff ha
    simp only [if_true, withSign, true_or, and_true]
    rw [← le_iff_lt_or_eq, neg_le_neg_iff, ← hle]
    omega

theorem Printed.isZero_weight_iff (h : n.Printed) :
    n.weight.IsZero ↔ n.text = "0.0000" ∨ n.text = "-0.0000" := by
  constructor
  · intro hz
    have hd : n.decimal.digits = 0 := by
      rw [← h.scaled_weight, hz]
      decide +kernel
    rw [text, h.toList_eq, hd]
    cases n.isNegative with
    | false => exact .inl (by decide)
    | true => exact .inr (by decide)
  · have hr := h.ofText?_text
    rintro (ht | ht) <;> rw [ht] at hr
    · have hz : Weight.ofText? "0.0000" = some (.ofParts false 0) := by decide +kernel
      rw [← Option.some.inj (hz.symm.trans hr)]
      exact Weight.magnitude_ofParts (by decide)
    · have hz : Weight.ofText? "-0.0000" = some (.ofParts true 0) := by decide +kernel
      rw [← Option.some.inj (hz.symm.trans hr)]
      exact Weight.magnitude_ofParts (by decide)

end Numeral

section

variable {ns : List Numeral} {a b : Numeral}

theorem standFor_of_printed (hp : ∀ n ∈ ns, n.Printed) :
    StandFor (ns.map Numeral.text) (ns.map Numeral.weight) := by
  rw [StandFor, List.forall₂_map_left_iff, List.forall₂_map_right_iff, List.forall₂_same]
  exact fun n hn => (hp n hn).ofText?_text

theorem min?_weights (hp : ∀ n ∈ ns, n.Printed) (ha : a ∈ ns) :
    (ns.map Numeral.weight).min? = some a.weight ↔ ∀ n ∈ ns, a.AtMost n := by
  rw [List.min?_eq_some_iff, List.forall_mem_map]
  constructor
  · exact fun h n hn => ((hp a ha).weight_le_iff (hp n hn)).mp (h.2 n hn)
  · exact fun h => ⟨List.mem_map_of_mem ha,
      fun n hn => ((hp a ha).weight_le_iff (hp n hn)).mpr (h n hn)⟩

theorem max?_weights (hp : ∀ n ∈ ns, n.Printed) (hb : b ∈ ns) :
    (ns.map Numeral.weight).max? = some b.weight ↔ ∀ n ∈ ns, n.AtMost b := by
  rw [List.max?_eq_some_iff, List.forall_mem_map]
  constructor
  · exact fun h n hn => ((hp n hn).weight_le_iff (hp b hb)).mp (h.2 n hn)
  · exact fun h => ⟨List.mem_map_of_mem hb,
      fun n hn => ((hp n hn).weight_le_iff (hp b hb)).mpr (h n hn)⟩

theorem exists_least (hp : ∀ n ∈ ns, n.Printed) (hne : ns ≠ []) :
    ∃ a ∈ ns, ∀ n ∈ ns, a.AtMost n := by
  have hm : (ns.map Numeral.weight).min? ≠ none := by simpa using hne
  obtain ⟨w, hw⟩ := Option.ne_none_iff_exists'.mp hm
  obtain ⟨a, ha, rfl⟩ := List.mem_map.mp (List.min?_mem hw)
  exact ⟨a, ha, (min?_weights hp ha).mp hw⟩

theorem exists_greatest (hp : ∀ n ∈ ns, n.Printed) (hne : ns ≠ []) :
    ∃ b ∈ ns, ∀ n ∈ ns, n.AtMost b := by
  have hm : (ns.map Numeral.weight).max? ≠ none := by simpa using hne
  obtain ⟨w, hw⟩ := Option.ne_none_iff_exists'.mp hm
  obtain ⟨b, hb, rfl⟩ := List.mem_map.mp (List.max?_mem hw)
  exact ⟨b, hb, (max?_weights hp hb).mp hw⟩

def zeroTokens (ts : List String) : Nat := ts.countP fun t => t = "0.0000" ∨ t = "-0.0000"

theorem countP_isZero_weights (hp : ∀ n ∈ ns, n.Printed) :
    (ns.map Numeral.weight).countP (fun w => w.IsZero) = zeroTokens (ns.map Numeral.text) := by
  rw [zeroTokens, List.countP_map, List.countP_map]
  refine List.countP_congr fun n hn => ?_
  simpa using (hp n hn).isZero_weight_iff

/-- Of a printed text, the summary shows the tokens of the extremes as they stand in the text. -/
theorem line_of_printed {count : Nat} {text : String} (hc : 1 ≤ count)
    (hl : (tokens text).length = count) (ht : tokens text = ns.map Numeral.text)
    (hp : ∀ n ∈ ns, n.Printed) :
    ∃ values, loadText count text = .ok values ∧
      (∃ a ∈ ns, ∀ n ∈ ns, a.AtMost n) ∧ (∃ b ∈ ns, ∀ n ∈ ns, n.AtMost b) ∧
      ∀ a ∈ ns, ∀ b ∈ ns, (∀ n ∈ ns, a.AtMost n) → (∀ n ∈ ns, n.AtMost b) →
        (Summary.of values).line =
          s!"shape [{count}], min {a.text}, max {b.text}, zeros {zeroTokens (tokens text)}" := by
  rw [ht, List.length_map] at hl
  have hs := standFor_of_printed hp
  have hlen : (ns.map Numeral.weight).length = count := by rw [List.length_map, hl]
  have hne : ns ≠ [] := List.ne_nil_of_length_pos (hl ▸ hc)
  refine ⟨ns.map Numeral.weight, ?_, exists_least hp hne, exists_greatest hp hne, ?_⟩
  · rw [loadText_of_standFor (ht ▸ hs), if_pos hlen]
  · intro a ha b hb hleast hgreatest
    have hmin := (min?_weights hp ha).mpr hleast
    have hmax := (max?_weights hp hb).mpr hgreatest
    have hz := countP_isZero_weights hp
    simp only [Summary.of, Summary.line, hlen, hmin, hmax, Option.getD_some, hz, ht,
      (hp a ha).fixed_weight, (hp b hb).fixed_weight]

/-- Of two zeros the negative one is the least. -/
theorem line_of_printed_small :
    ∃ values, loadText 3 "0.0000, 1023.9999,-0.0000" = .ok values ∧
      (Summary.of values).line = "shape [3], min -0.0000, max 1023.9999, zeros 2" := by
  have hzero := Numeral.printed_fixedNumeral (k := 0) false (by decide)
  have hlarge := Numeral.printed_fixedNumeral (k := 10239999) false (by decide)
  have hnegative := Numeral.printed_fixedNumeral (k := 0) true (by decide)
  have hp := List.forall_mem_cons.mpr ⟨hzero, List.forall_mem_cons.mpr ⟨hlarge,
    List.forall_mem_singleton.mpr hnegative⟩⟩
  obtain ⟨values, hv, _, _, hline⟩ :=
    @line_of_printed _ 3 "0.0000, 1023.9999,-0.0000" (by decide) (by decide) (by decide +kernel) hp
  have hshown := hline _ (.tail _ (.tail _ (.head _))) _ (.tail _ (.head _))
    (fun n hn => (hnegative.weight_le_iff (hp n hn)).mp (by revert n; decide +kernel))
    (fun n hn => ((hp n hn).weight_le_iff hlarge).mp (by revert n; decide +kernel))
  exact ⟨values, hv, hshown.trans (by decide +kernel)⟩

end

end WeightTables
