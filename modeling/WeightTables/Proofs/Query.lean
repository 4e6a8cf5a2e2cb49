import WeightTables.Proofs.Table.Bytes
import WeightTables.Query

/-! Answers about a table beside one another. The positions that hold a value are those below the
length, a stretch of values is a slice that cannot fail, and a table is known by its name and the
answers for its positions, or by its name and its bytes. -/

namespace WeightTables.Table

variable {t u : Table} {i n : Nat} {w : Weight} {e : RangeError}

theorem get_eq_ok_iff : t.get i = .ok w ↔ t.get? i = some w := by
  unfold get
  cases t.get? i with
  | none => simp
  | some v => simp

theorem get?_eq_none_iff : t.get? i = none ↔ t.length ≤ i := List.getElem?_eq_none_iff

theorem get_eq_error_iff : t.get i = .error e ↔ t.length ≤ i ∧ e = .index t.length i := by
  rw [← get?_eq_none_iff]
  unfold get
  cases t.get? i with
  | none => simp [eq_comm]
  | some v => simp

/-- A position that has to be there is refused exactly where the other answer is that there is no
value, and the two never give different values. -/
theorem answer_index (t : Table) (i : Nat) :
    (∃ w, t.answer (.index i) = .required (.ok w) ∧ t.answer (.get i) = .optional (some w)) ∨
      t.answer (.index i) = .required (.error (.index t.length i)) ∧
        t.answer (.get i) = .optional none := by
  cases hg : t.get? i with
  | some w => exact .inl ⟨w, congrArg _ (get_eq_ok_iff.mpr hg), congrArg _ hg⟩
  | none =>
    have hl := get?_eq_none_iff.mp hg
    exact .inr ⟨congrArg _ (get_eq_error_iff.mpr ⟨hl, rfl⟩), congrArg _ hg⟩

theorem answer_get_eq_none_iff : t.answer (.get i) = .optional none ↔ t.length ≤ i := by
  rw [← get?_eq_none_iff]
  exact ⟨fun h => QueryAnswer.optional.inj h, fun h => congrArg _ h⟩

theorem answer_length_iff :
    t.answer .length = .size n ↔ ∀ i, t.answer (.get i) = .optional none ↔ n ≤ i := by
  simp only [answer_get_eq_none_iff]
  constructor
  · intro h i
    rw [← QueryAnswer.size.inj h]
  · intro h
    have hl : t.length = n := Nat.le_antisymm ((h n).mpr (Nat.le_refl n)) ((h _).mp (Nat.le_refl _))
    exact congrArg _ hl

theorem answer_isEmpty_iff :
    t.answer .isEmpty = .truth true ↔ ∀ i, t.answer (.get i) = .optional none := by
  have hz : t.isEmpty = true ↔ t.length = 0 := by
    rw [isEmpty, length, List.isEmpty_iff, List.length_eq_zero_iff]
  simp only [answer_get_eq_none_iff]
  constructor
  · intro h i
    rw [hz.mp (QueryAnswer.truth.inj h)]
    exact Nat.zero_le i
  · intro h
    exact congrArg _ (hz.mpr (Nat.le_zero.mp (h 0)))

/-- A stretch that reaches beyond the table is cut to it. -/
theorem answer_iterate (t : Table) (skip take : Nat) :
    ∃ vs, t.answer (.iterate skip take) = .weights vs ∧
      t.slice (min skip t.length) (min (skip + take) t.length) = .ok vs := by
  refine ⟨_, rfl, ?_⟩
  rw [slice_eq_extract (by omega) (Nat.min_le_right _ _), List.extract_eq_take_drop]
  by_cases hs : skip ≤ t.length
  · have hn : min (skip + take) t.length - skip = min take (t.values.drop skip).length := by
      rw [List.length_drop, length]
      omega
    rw [Nat.min_eq_left hs, hn, ← List.take_eq_take_min]
  · have hd : t.values.drop skip = [] := List.drop_eq_nil_of_le (Nat.le_of_not_le hs)
    have hl : t.values.drop t.length = [] := List.drop_length
    rw [Nat.min_eq_right (Nat.le_of_not_le hs), hd, hl, List.take_nil, List.take_nil]

theorem answer_iterate_add (t : Table) (skip a b : Nat) :
    ∃ vs ws, t.answer (.iterate skip a) = .weights vs ∧
      t.answer (.iterate (skip + a) b) = .weights ws ∧
      t.answer (.iterate skip (a + b)) = .weights (vs ++ ws) := by
  refine ⟨_, _, rfl, rfl, ?_⟩
  rw [answer, List.take_add, List.drop_drop]

theorem answer_iterate_length (t : Table) :
    t.answer (.iterate 0 t.length) = t.answer .values := by
  rw [answer, answer, List.drop_zero, length, List.take_length]

theorem eq_of_answers (hn : t.answer .name = u.answer .name)
    (hg : ∀ i, t.answer (.get i) = u.answer (.get i)) : t = u := by
  have hv : t.values = u.values := List.ext_getElem? fun i => QueryAnswer.optional.inj (hg i)
  obtain ⟨name, values⟩ := t
  exact congr (congrArg mk (QueryAnswer.text.inj hn)) hv

theorem eq_of_answer_bytes (hn : t.answer .name = u.answer .name)
    (hb : t.answer .bytes = u.answer .bytes) : t = u := by
  have hv : t.values = u.values := by
    have hh : bytesOfWeights t.values = bytesOfWeights u.values := QueryAnswer.bytes.inj hb
    rw [← weightsOfBytes_bytesOfWeights t.values, hh, weightsOfBytes_bytesOfWeights]
  obtain ⟨name, values⟩ := t
  exact congr (congrArg mk (QueryAnswer.text.inj hn)) hv

end WeightTables.Table
