import WeightTables.Proofs.Export.ArrayText
import WeightTables.Proofs.Table.Bytes
import WeightTables.Proofs.Table.Extremes
import Mathlib.Order.WithBot

/-! Summaries under comparison as numbers. A pattern that is no number stands at one end of the
total order, so it cannot be among the values without being one of the extremes. Where there is
none, the total order goes along with the order of the numbers, and the extremes bound the values
as numbers too. -/

namespace WeightTables

namespace Weight

variable {v w : Weight}

/-- The number that a weight stands for, on the line with both infinities. -/
def number (w : Weight) : WithBot (WithTop ℚ) :=
  if w.IsFinite then ((w.value : WithTop ℚ) : WithBot (WithTop ℚ))
  else if w.isNegative then ⊥ else ⊤

theorem number_of_isFinite (h : w.IsFinite) : w.number = (w.value : WithTop ℚ) := if_pos h

theorem number_of_isNegative (h : ¬ w.IsFinite) (hn : w.isNegative = true) : w.number = ⊥ := by
  simp [number, h, hn]

theorem number_of_not_isNegative (h : ¬ w.IsFinite) (hn : w.isNegative = false) :
    w.number = ⊤ := by
  simp [number, h, hn]

theorem signed_cases (w : Weight) :
    (w.isNegative = true ∧ w.signed = -(w.magnitude : Int) ∧ w.rank = w.signed - 1) ∨
      (w.isNegative = false ∧ w.signed = w.magnitude ∧ w.rank = w.signed) := by
  cases h : w.isNegative <;> simp [signed, rank, h]

theorem signed_le_of_le (h : v ≤ w) : v.signed ≤ w.signed := by
  have hv := v.signed_cases
  have hw := w.signed_cases
  rw [le_iff] at h
  omega

theorem exact_le_zero_iff {m : Nat} : exact m ≤ 0 ↔ m = 0 := by
  rw [← exact_zero, exact_strictMono.le_iff_le, Nat.le_zero]

theorem signed_le_iff_value : v.signed ≤ w.signed ↔ v.value ≤ w.value := by
  have hv := exact_nonneg v.magnitude
  have hw := exact_nonneg w.magnitude
  rw [signed, signed, value, value]
  cases v.isNegative <;> cases w.isNegative
  · simp [withSign, exact_strictMono.le_iff_le]
  · -- only two zeros are that way round
    simp only [withSign, Bool.false_eq_true, if_false, if_true]
    constructor
    · intro h
      have hz : v.magnitude = 0 ∧ w.magnitude = 0 := by omega
      simp [hz, exact_zero]
    · intro h
      have hzv := exact_le_zero_iff.mp (show exact v.magnitude ≤ 0 by linarith)
      have hzw := exact_le_zero_iff.mp (show exact w.magnitude ≤ 0 by linarith)
      simp [hzv, hzw]
  · simp only [withSign, Bool.false_eq_true, if_false, if_true]
    exact iff_of_true (by omega) (by linarith)
  · simp [withSign, exact_strictMono.le_iff_le]

theorem magnitude_eq_infinity (hf : ¬ w.IsFinite) (hn : ¬ w.IsNaN) : w.magnitude = infinity :=
  Nat.le_antisymm (Nat.not_lt.mp hn) (Nat.not_lt.mp hf)

/-- The comparison as numbers is that of the number line. -/
theorem numLE_iff_number : v.NumLE w ↔ ¬ v.IsNaN ∧ ¬ w.IsNaN ∧ v.number ≤ w.number := by
  refine and_congr_right fun hv => and_congr_right fun hw => ?_
  have hsv := v.signed_cases
  have hsw := w.signed_cases
  by_cases hvf : v.IsFinite
  · by_cases hwf : w.IsFinite
    · simp [number, hvf, hwf, signed_le_iff_value]
    · have hlt : v.magnitude < w.magnitude := magnitude_eq_infinity hwf hw ▸ hvf
      rcases hsw with ⟨hn, hs, _⟩ | ⟨hn, hs, _⟩
      · rw [number_of_isNegative hwf hn, number_of_isFinite hvf]
        exact iff_of_false (by omega) (by simp)
      · rw [number_of_not_isNegative hwf hn]
        exact iff_of_true (by omega) le_top
  · have hm := magnitude_eq_infinity hvf hv
    have hle : w.magnitude ≤ v.magnitude := hm ▸ Nat.not_lt.mp hw
    rcases hsv with ⟨hn, hs, _⟩ | ⟨hn, hs, _⟩
    · rw [number_of_isNegative hvf hn]
      exact iff_of_true (by omega) bot_le
    · rw [number_of_not_isNegative hvf hn, top_le_iff]
      by_cases hwf : w.IsFinite
      · have hlt : w.magnitude < v.magnitude := hm ▸ hwf
        rw [number_of_isFinite hwf]
        exact iff_of_false (by omega) (by simp)
      · rw [number, if_neg hwf, hs, hm]
        have hmw := magnitude_eq_infinity hwf hw
        rcases hsw with ⟨hn, hs, _⟩ | ⟨hn, hs, _⟩ <;> simp [hn, hs, hmw]

theorem numLE_of_le (h : v ≤ w) (hv : ¬ v.IsNaN) (hw : ¬ w.IsNaN) : v.NumLE w :=
  ⟨hv, hw, signed_le_of_le h⟩

theorem isNaN_iff_rank : w.IsNaN ↔ w.rank < -(infinity : Int) - 1 ∨ (infinity : Int) < w.rank := by
  rw [rank]
  split <;> omega

/-- A pattern that is no number does not lie between two that are. -/
theorem isNaN_or_of_between {u : Weight} (hv : v ≤ u) (hw : u ≤ w) (h : u.IsNaN) :
    v.IsNaN ∨ w.IsNaN := by
  rw [le_iff] at hv hw
  rw [isNaN_iff_rank] at h ⊢
  rw [isNaN_iff_rank]
  omega

end Weight

section

variable {values : List Weight} {e : Extremes} {w : Weight}

theorem Bounds.not_isNaN_iff (h : Bounds values e) :
    ¬ e.least.IsNaN ∧ ¬ e.greatest.IsNaN ↔ ∀ w ∈ values, ¬ w.IsNaN := by
  constructor
  · rintro ⟨hl, hg⟩ w hw hn
    rcases Weight.isNaN_or_of_between (h.least_le w hw) (h.le_greatest w hw) hn with hn | hn
    · exact hl hn
    · exact hg hn
  · exact fun hv => ⟨hv _ h.least_mem, hv _ h.greatest_mem⟩

theorem Summary.numEq_self_iff (s : Summary) :
    s.NumEq s ↔ ¬ s.least.IsNaN ∧ ¬ s.greatest.IsNaN := by
  simp [NumEq]

theorem Summary.not_isNaN_of_iff (values : List Weight) :
    (¬ (Summary.of values).least.IsNaN ∧ ¬ (Summary.of values).greatest.IsNaN) ↔
      ∀ w ∈ values, ¬ w.IsNaN := by
  by_cases hne : values = []
  · rw [hne]
    exact iff_of_true (by decide) (by simp)
  · exact ((summarizes_of values).bounds hne).not_isNaN_iff

/-- What a summary tells about its values as numbers. -/
structure NumericSummary (values : List Weight) : Prop where
  numEq_self_iff : (Summary.of values).NumEq (.of values) ↔ ∀ w ∈ values, ¬ w.IsNaN
  bounds : (∀ w ∈ values, ¬ w.IsNaN) → ∀ w ∈ values,
    (Summary.of values).least.NumLE w ∧ w.NumLE (Summary.of values).greatest
  between : (∀ w ∈ values, ¬ w.IsNaN) → ∀ w ∈ values,
    (Summary.of values).least.number ≤ w.number ∧ w.number ≤ (Summary.of values).greatest.number
  perm : (∀ w ∈ values, ¬ w.IsNaN) → ∀ permuted : List Weight, permuted.Perm values →
    (Summary.of permuted).NumEq (.of values)

theorem Summary.numLE_of (hv : ∀ w ∈ values, ¬ w.IsNaN) (hw : w ∈ values) :
    (Summary.of values).least.NumLE w ∧ w.NumLE (Summary.of values).greatest := by
  have hb := (summarizes_of values).bounds (List.ne_nil_of_mem hw)
  obtain ⟨hl, hg⟩ := hb.not_isNaN_iff.mpr hv
  exact ⟨Weight.numLE_of_le (hb.least_le w hw) hl (hv w hw),
    Weight.numLE_of_le (hb.le_greatest w hw) (hv w hw) hg⟩

theorem numericSummary (values : List Weight) : NumericSummary values where
  numEq_self_iff := (Summary.numEq_self_iff _).trans (Summary.not_isNaN_of_iff values)
  bounds hv _ hw := Summary.numLE_of hv hw
  between hv w hw := by
    obtain ⟨hl, hg⟩ := Summary.numLE_of hv hw
    exact ⟨(Weight.numLE_iff_number.mp hl).2.2, (Weight.numLE_iff_number.mp hg).2.2⟩
  perm hv permuted hp := by
    rw [← ((summarizes_of values).perm hp).eq_of, Summary.numEq_self_iff]
    exact (Summary.not_isNaN_of_iff values).mpr hv

/-- The tables that are loaded from a text, wherever the text comes from. -/
inductive LoadedFromText : List Weight → Prop
  | text {count : Nat} {text : String} {values : List Weight}
    (h : loadText count text = .ok values) : LoadedFromText values
  | stream {count : Nat} {stream : Stream} {values : List Weight}
    (h : (loadStream count stream).result = .ok values) : LoadedFromText values
  | file {count : Nat} {fs : FileSystem} {path : String} {values : List Weight}
    (h : (loadFile count fs path).result = .ok values) : LoadedFromText values

theorem isFinite_of_loadText {count : Nat} {text : String} (h : loadText count text = .ok values) :
    ∀ w ∈ values, w.IsFinite := by
  rcases loadText_cases count text with ⟨ws, hs, _, hr⟩ | ⟨_, _, _, hr⟩ | ⟨_, _, _, hr⟩
  · rw [← Except.ok.inj (hr.symm.trans h)]
    exact isFinite_of_standFor hs
  · simp [hr] at h
  · simp [hr] at h

theorem isFinite_of_loadContent {count : Nat} {content : Except IoError Bytes}
    (h : (loadContent count content).result = .ok values) : ∀ w ∈ values, w.IsFinite := by
  unfold loadContent at h
  split at h
  · simp at h
  · split at h
    · simp at h
    · exact isFinite_of_loadText h

theorem LoadedFromText.isFinite (h : LoadedFromText values) : ∀ w ∈ values, w.IsFinite := by
  cases h with
  | text h => exact isFinite_of_loadText h
  | stream h => exact isFinite_of_loadContent h
  | file h =>
    unfold loadFile at h
    split at h
    · simp at h
    · exact isFinite_of_loadContent h

theorem Summary.isFinite_of (h : ∀ w ∈ values, w.IsFinite) :
    (Summary.of values).least.IsFinite ∧ (Summary.of values).greatest.IsFinite := by
  by_cases hne : values = []
  · rw [hne]
    decide
  · have hb := (summarizes_of values).bounds hne
    exact ⟨h _ hb.least_mem, h _ hb.greatest_mem⟩

theorem loadBytes_replicate (count : Nat) (w : Weight) :
    loadBytes count (bytesOfWeights (List.replicate count w)) = .ok (List.replicate count w) :=
  loadBytes_eq_ok.mpr ⟨List.length_replicate, rfl⟩

/-- A pattern that is no number shows in the summary, which is then not equal to itself. No text
loads with one, while bytes do. -/
theorem summary_showsNaN :
    (∀ values, NumericSummary values) ∧
    (∀ values, LoadedFromText values → (∀ w ∈ values, ¬ w.IsNaN) ∧
      (Summary.of values).least.IsFinite ∧ (Summary.of values).greatest.IsFinite) ∧
    (∀ count, ∃ bytes values, loadBytes count bytes = .ok values ∧ ∀ w ∈ values, ¬ w.IsNaN) ∧
    ∀ count, 0 < count →
      ∃ bytes values, loadBytes count bytes = .ok values ∧ ∃ w ∈ values, w.IsNaN := by
  refine ⟨numericSummary, fun values h => ⟨fun w hw => ?_, Summary.isFinite_of h.isFinite⟩,
    fun count => ⟨_, _, loadBytes_replicate count .zero, fun w hw => ?_⟩,
    fun count hc => ⟨_, _, loadBytes_replicate count ⟨0x7fc00000⟩, ⟨0x7fc00000⟩, ?_, by decide⟩⟩
  · exact Nat.not_lt.mpr (h.isFinite w hw).le
  · rw [List.eq_of_mem_replicate hw]
    decide
  · exact List.mem_replicate.mpr ⟨hc.ne', rfl⟩

/-- A negative pattern that is no number between two numbers, both infinities around the two zeros,
and what a text loads as. -/
theorem summary_showsNaN_small :
    let mixed : List Weight := [⟨0x3f800000⟩, ⟨0xffc00001⟩, ⟨0xc0000000⟩]
    let lined : List Weight := [⟨0x80000000⟩, ⟨0x7f800000⟩, ⟨0⟩, ⟨0xff800000⟩]
    (¬ (Summary.of mixed).NumEq (.of mixed)) ∧
      (Summary.of lined).NumEq (.of lined) ∧ (Summary.of lined).least.NumLE ⟨0⟩ ∧
      (Summary.of lined.reverse).NumEq (.of lined) ∧
      (Summary.of [⟨0xbf800000⟩, ⟨0x3f000000⟩]).least.IsFinite ∧
      ∃ bytes values, loadBytes 3 bytes = .ok values ∧ ∃ w ∈ values, w.IsNaN := by
  intro mixed lined
  have hl : ∀ w ∈ lined, ¬ w.IsNaN := by decide
  have ht : loadText 2 "-1, 0.5" = .ok [⟨0xbf800000⟩, ⟨0x3f000000⟩] := by decide +kernel
  obtain ⟨hn, hf, -, hb⟩ := summary_showsNaN
  refine ⟨fun h => ?_, (hn lined).numEq_self_iff.mpr hl, ?_, ?_, (hf _ (.text ht)).2.1,
    hb 3 (by decide)⟩
  · exact (hn mixed).numEq_self_iff.mp h ⟨0xffc00001⟩ (by decide) (by decide)
  · exact ((hn lined).bounds hl ⟨0⟩ (by decide)).1
  · exact (hn lined).perm hl _ lined.reverse_perm

end

end WeightTables
