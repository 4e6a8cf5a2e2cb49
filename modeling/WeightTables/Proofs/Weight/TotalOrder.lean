import WeightTables.Proofs.Weight.Order
import WeightTables.Proofs.Weight.Reading
import Mathlib.Data.Nat.Bitwise

/-! The total order of weights, put in words and put as a comparison of plain numbers. In words: the
negative patterns that are no numbers, the negative infinity, the finite weights by their values, the
positive infinity, the positive patterns that are no numbers. As plain numbers: the bits, all of them
flipped where the sign is set, and with the sign set where it is not. -/

namespace WeightTables.Weight

def key (w : Weight) : UInt32 :=
  if w.bits &&& 0x80000000 = 0 then w.bits ||| 0x80000000 else ~~~w.bits

/-- The place of a pattern among the five kinds of patterns. -/
def kind (w : Weight) : Nat :=
  if w.IsFinite then 2
  else if w.IsNaN then if w.isNegative then 0 else 4
  else if w.isNegative then 1 else 3

/-- What a pattern that is no number holds beyond its sign. -/
def payload (w : Weight) : Nat := w.magnitude - infinity

/-- `v` stands at or before `w`: by kind, then by value with the negative zero below the other one,
and by payload where there is no value. -/
def Precedes (v w : Weight) : Prop :=
  v.kind < w.kind ∨ v.kind = w.kind ∧
    if v.IsFinite then v.value < w.value ∨ v.value = w.value ∧ (v.isNegative ∨ ¬ w.isNegative)
    else withSign v.isNegative v.payload ≤ withSign w.isNegative w.payload

theorem rank_of_isNegative {w : Weight} (h : w.isNegative = true) :
    w.rank = -(w.magnitude : Int) - 1 := by
  simp [rank, h]

theorem rank_of_not_isNegative {w : Weight} (h : w.isNegative = false) : w.rank = w.magnitude := by
  simp [rank, h]

theorem and_signBit_eq_zero_iff (n : UInt32) : n &&& 0x80000000 = 0 ↔ n.toNat < signBit := by
  have hn := n.toNat_lt
  have hs : (0x80000000 : UInt32).toNat = 2 ^ 31 := rfl
  rw [← UInt32.toNat_inj, UInt32.toNat_and, hs, Nat.and_two_pow, Nat.testBit_eq_decide_div_mod_eq,
    signBit]
  simp only [UInt32.toNat_zero, Nat.mul_eq_zero, Bool.toNat_eq_zero, decide_eq_false_iff_not]
  omega

theorem toNat_or_signBit {n : UInt32} (h : n.toNat < signBit) :
    (n ||| 0x80000000).toNat = signBit + n.toNat := by
  have hs : (0x80000000 : UInt32).toNat = 2 ^ 31 * 1 := rfl
  rw [UInt32.toNat_or, hs, Nat.or_comm]
  exact (Nat.two_pow_add_eq_or_of_lt h 1).symm

theorem rank_eq_key (w : Weight) : w.rank = (w.key.toNat : Int) - signBit := by
  have hb := w.bits.toNat_lt
  by_cases h : w.bits.toNat < signBit
  · have hn : w.isNegative = false := decide_eq_false (Nat.not_le.mpr h)
    rw [rank_of_not_isNegative hn, magnitude, Nat.mod_eq_of_lt h, key,
      if_pos ((and_signBit_eq_zero_iff _).mpr h), toNat_or_signBit h]
    omega
  · have hn : w.isNegative = true := decide_eq_true (Nat.not_lt.mp h)
    have hk : w.key = ~~~w.bits := if_neg fun hz => h ((and_signBit_eq_zero_iff _).mp hz)
    have hm : w.magnitude + signBit = w.bits.toNat := by
      unfold magnitude signBit at *
      omega
    rw [rank_of_isNegative hn, hk, UInt32.toNat_not, UInt32.size]
    unfold signBit at hm ⊢
    omega

/-- The total order is the order of the keys. -/
theorem le_iff_key {v w : Weight} : v ≤ w ↔ v.key ≤ w.key := by
  rw [le_iff, rank_eq_key, rank_eq_key, UInt32.le_iff_toNat_le]
  omega

theorem key_lt_iff {v w : Weight} : w.key < v.key ↔ ¬ v ≤ w := by
  rw [le_iff_key, UInt32.not_le]

/-- Among the finite weights the total order is that of the values, except for the two zeros. -/
theorem le_iff_value {v w : Weight} :
    v ≤ w ↔ v.value < w.value ∨ v.value = w.value ∧ (v.isNegative ∨ ¬ w.isNegative) := by
  have hv := exact_nonneg v.magnitude
  have hw := exact_nonneg w.magnitude
  rw [le_iff, value, value]
  cases hnv : v.isNegative <;> cases hnw : w.isNegative
  · rw [rank_of_not_isNegative hnv, rank_of_not_isNegative hnw, Int.ofNat_le,
      ← exact_strictMono.le_iff_le]
    simp [withSign, le_iff_lt_or_eq]
  · rw [rank_of_not_isNegative hnv, rank_of_isNegative hnw]
    simp only [withSign, if_true, Bool.false_eq_true, if_false, not_true_eq_false, or_self,
      and_false, or_false]
    exact iff_of_false (by omega) (by linarith)
  · rw [rank_of_isNegative hnv, rank_of_not_isNegative hnw]
    simp only [withSign, if_true, Bool.false_eq_true, if_false, true_or, and_true]
    exact iff_of_true (by omega) (lt_or_eq_of_le (by linarith))
  · have hle : w.magnitude ≤ v.magnitude ↔ -exact v.magnitude ≤ -exact w.magnitude := by
      rw [neg_le_neg_iff, exact_strictMono.le_iff_le]
    rw [rank_of_isNegative hnv, rank_of_isNegative hnw]
    simp only [withSign, if_true, true_or, and_true]
    rw [← le_iff_lt_or_eq, ← hle]
    omega

/-- Each kind has a stretch of ranks of its own. -/
theorem kind_cases (w : Weight) :
    (w.kind = 0 ∧ w.rank < -(infinity : Int) - 1) ∨ (w.kind = 1 ∧ w.rank = -(infinity : Int) - 1) ∨
      (w.kind = 2 ∧ -(infinity : Int) - 1 < w.rank ∧ w.rank < infinity) ∨
      (w.kind = 3 ∧ w.rank = infinity) ∨ (w.kind = 4 ∧ (infinity : Int) < w.rank) := by
  rw [kind, rank]
  rcases Nat.lt_trichotomy w.magnitude infinity with h | h | h
  · rw [if_pos h]
    split <;> omega
  · rw [if_neg h.not_lt, if_neg h.not_gt]
    cases w.isNegative <;> simp [h]
  · rw [if_neg h.not_gt, if_pos h]
    split <;> omega

theorem kind_eq_two_iff {w : Weight} : w.kind = 2 ↔ w.IsFinite := by
  rw [kind]
  by_cases hf : w.IsFinite
  · simp [hf]
  · rw [if_neg hf]
    exact iff_of_false (by split <;> split <;> decide) hf

theorem isNegative_iff_of_not_isFinite {w : Weight} (h : ¬ w.IsFinite) :
    w.isNegative ↔ w.kind < 2 := by
  rw [kind, if_neg h]
  by_cases hn : w.IsNaN
  · rw [if_pos hn]
    cases w.isNegative <;> decide
  · rw [if_neg hn]
    cases w.isNegative <;> decide

theorem le_iff_payload {v w : Weight} (hk : v.kind = w.kind) (hf : ¬ v.IsFinite) :
    v ≤ w ↔ withSign v.isNegative v.payload ≤ withSign w.isNegative w.payload := by
  have hw : ¬ w.IsFinite := fun hw => hf (kind_eq_two_iff.mp (hk.trans (kind_eq_two_iff.mpr hw)))
  have hs : v.isNegative = w.isNegative := by
    rw [Bool.eq_iff_iff, isNegative_iff_of_not_isFinite hf, isNegative_iff_of_not_isFinite hw, hk]
  have hv : infinity ≤ v.magnitude := Nat.not_lt.mp hf
  have hm : infinity ≤ w.magnitude := Nat.not_lt.mp hw
  unfold payload
  generalize infinity = top at hv hm ⊢
  rw [le_iff, rank, rank, ← hs]
  cases v.isNegative
  · simp only [withSign, Bool.false_eq_true, if_false, Nat.cast_le]
    omega
  · simp only [withSign, if_true, neg_le_neg_iff, Nat.cast_le]
    omega

/-- The total order in words. -/
theorem le_iff_precedes {v w : Weight} : v ≤ w ↔ v.Precedes w := by
  have hv := v.kind_cases
  have hw := w.kind_cases
  rcases Nat.lt_trichotomy v.kind w.kind with h | h | h
  · exact iff_of_true (by rw [le_iff]; omega) (.inl h)
  · rw [Precedes, h, eq_self, true_and, or_iff_right (Nat.lt_irrefl _)]
    by_cases hf : v.IsFinite
    · rw [if_pos hf, le_iff_value]
    · rw [if_neg hf, le_iff_payload h hf]
  · exact iff_of_false (by rw [le_iff]; omega) (by rw [Precedes]; omega)

end WeightTables.Weight
