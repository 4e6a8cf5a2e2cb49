import WeightTables.Proofs.Export.Layout
import WeightTables.Proofs.Loading

/-! When a text has an array text, and which. The literals can be read back from it: without its
brackets, an array text loads as the text that it was made from. -/

namespace WeightTables

section

variable {ts : List String} {ws : List Weight}

theorem literals_of_standFor (h : StandFor ts ws) (index : Nat) :
    (ts.zipIdx index).mapM literalAt = .ok (ws.map Weight.literal) := by
  induction h generalizing index with
  | nil => rfl
  | cons hs _ ih =>
    rw [List.zipIdx_cons, List.mapM_cons, ih]
    simp only [literalAt, Weight.literalOf?, hs, Option.map_some]
    rfl

theorem literals_of_firstBad {i : Nat} {t : String} (h : FirstBad ts i t) (index : Nat) :
    (ts.zipIdx index).mapM literalAt = .error (.badToken (index + i) t) := by
  induction ts generalizing i index with
  | nil => exact absurd h not_firstBad_nil
  | cons s ts ih =>
    rw [List.zipIdx_cons, List.mapM_cons]
    cases i with
    | zero =>
      obtain rfl := h.head_eq
      simp only [literalAt, Weight.literalOf?, h.2.1, Option.map_none]
      rfl
    | succ i =>
      obtain ⟨⟨w, hs⟩, hb⟩ := h.of_cons
      have he : index + 1 + i = index + (i + 1) := by omega
      rw [ih hb, he]
      simp only [literalAt, Weight.literalOf?, hs, Option.map_some]
      rfl

theorem isFinite_of_standFor (h : StandFor ts ws) : ∀ w ∈ ws, w.IsFinite := by
  induction h with
  | nil => simp
  | cons hs _ ih =>
    intro w hw
    rcases List.mem_cons.mp hw with rfl | hw
    · exact Weight.isFinite_of_ofText? hs
    · exact ih w hw

theorem standFor_literals (h : ∀ w ∈ ws, w.IsFinite) : StandFor (ws.map Weight.literal) ws := by
  induction ws with
  | nil => exact .nil
  | cons w ws ih =>
    exact .cons (Weight.ofText?_literal (h w List.mem_cons_self))
      (ih fun v hv => h v (List.mem_cons_of_mem w hv))

end

theorem not_isBlank_of_isDigit {c : Char} (h : c.isDigit) : ¬ IsBlank c := by
  have hd : 48 ≤ c.toNat ∧ c.toNat ≤ 57 := Char.isDigit_iff_toNat.mp h
  have hapart : ∀ r ∈ blankRanges, r.2 < 48 ∨ 57 < r.1 := by decide
  intro hb
  obtain ⟨r, hr, hc⟩ := List.any_eq_true.mp hb
  rw [Bool.and_eq_true, decide_eq_true_eq, decide_eq_true_eq] at hc
  have ha := hapart r hr
  omega

theorem not_isSeparator_of_isNumeralChar {c : Char} (h : Numeral.IsNumeralChar c) :
    ¬ IsSeparator c := by
  rcases h with h | h
  · rintro (rfl | hb)
    · exact absurd h (by decide)
    · exact not_isBlank_of_isDigit h hb
  · simp only [List.mem_cons, List.not_mem_nil, or_false] at h
    rcases h with rfl | rfl | rfl | rfl | rfl <;> decide

theorem notBracket_of_isNumeralChar {c : Char} (h : Numeral.IsNumeralChar c) : NotBracket c := by
  constructor <;> rintro rfl <;> exact absurd h (by decide)

theorem isWord_literal (w : Weight) : IsWord IsSeparator w.literal.toList := by
  by_cases h : w.IsFinite
  · refine ⟨?_, fun c hc => ?_⟩
    · rw [Ne, String.toList_eq_nil_iff]
      exact Weight.literal_ne_empty h
    · exact not_isSeparator_of_isNumeralChar (Weight.isNumeralChar_of_mem_literal h hc)
  · rw [Weight.literal_of_not_isFinite h]
    refine ⟨?_, fun c hc => ?_⟩
    · rcases w.word_cases with hw | hw | hw <;> rw [hw] <;> decide
    · have hl := Weight.mem_letters_of_mem_word hc
      simp only [List.mem_cons, List.not_mem_nil, or_false] at hl
      rcases hl with rfl | rfl | rfl | rfl | rfl | rfl <;> decide

theorem notBracket_of_mem_literal {w : Weight} {c : Char} (hc : c ∈ w.literal.toList) :
    NotBracket c := by
  by_cases h : w.IsFinite
  · exact notBracket_of_isNumeralChar (Weight.isNumeralChar_of_mem_literal h hc)
  · rw [Weight.literal_of_not_isFinite h] at hc
    have hl := Weight.mem_letters_of_mem_word hc
    constructor <;> rintro rfl <;> exact absurd hl (by decide)

section

variable (ws : List Weight)

theorem isWord_of_mem_literals : ∀ l ∈ ws.map Weight.literal, IsWord IsSeparator l.toList := by
  intro l hl
  obtain ⟨w, _, rfl⟩ := List.mem_map.mp hl
  exact isWord_literal w

theorem notBracket_of_mem_literals :
    ∀ l ∈ ws.map Weight.literal, ∀ c ∈ l.toList, NotBracket c := by
  intro l hl c hc
  obtain ⟨w, _, rfl⟩ := List.mem_map.mp hl
  exact notBracket_of_mem_literal hc

theorem tokens_withoutBrackets_literals :
    tokens (withoutBrackets (layOut (ws.map Weight.literal))) = ws.map Weight.literal :=
  tokens_withoutBrackets_layOut (isWord_of_mem_literals ws) (notBracket_of_mem_literals ws)

end

section

variable {count : Nat} {text table : String} {ws : List Weight}

theorem arrayText_of_standFor (h : StandFor (tokens text) ws) (hc : count ≤ literalCapacity) :
    arrayText text count =
      if ws.length = count then .ok (layOut (ws.map Weight.literal))
      else .error (.wrongCount count ws.length) := by
  have hl : (ws.map Weight.literal).length = ws.length := List.length_map _
  rw [arrayText, if_neg (Nat.not_lt.mpr hc), literals_of_standFor h 0, ← hl]
  rfl

theorem arrayText_of_firstBad {i : Nat} {t : String} (h : FirstBad (tokens text) i t)
    (hc : count ≤ literalCapacity) : arrayText text count = .error (.badToken i t) := by
  rw [arrayText, if_neg (Nat.not_lt.mpr hc), literals_of_firstBad h 0, Nat.zero_add]
  rfl

theorem arrayText_of_overflow (h : literalCapacity < count) :
    arrayText text count = .error .capacityOverflow :=
  if_pos h

theorem standFor_of_arrayText (h : arrayText text count = .ok table) :
    count ≤ literalCapacity ∧
      ∃ ws, StandFor (tokens text) ws ∧ ws.length = count ∧
        table = layOut (ws.map Weight.literal) := by
  by_cases hc : literalCapacity < count
  · rw [arrayText_of_overflow hc] at h
    exact absurd h (by simp)
  · have hc' := Nat.le_of_not_lt hc
    rcases standFor_or_firstBad (tokens text) with ⟨ws, hw⟩ | ⟨i, t, hb⟩
    · rw [arrayText_of_standFor hw hc'] at h
      split at h
      · rename_i hl
        exact ⟨hc', ws, hw, hl, (Except.ok.inj h).symm⟩
      · exact absurd h (by simp)
    · rw [arrayText_of_firstBad hb hc'] at h
      exact absurd h (by simp)

theorem standFor_withoutBrackets (h : arrayText text count = .ok table) :
    count ≤ literalCapacity ∧ ∃ ws, StandFor (tokens text) ws ∧
      StandFor (tokens (withoutBrackets table)) ws ∧ ws.length = count ∧
      table = layOut (ws.map Weight.literal) := by
  obtain ⟨hc, ws, hw, hl, rfl⟩ := standFor_of_arrayText h
  have hf := isFinite_of_standFor hw
  refine ⟨hc, ws, hw, ?_, hl, rfl⟩
  rw [tokens_withoutBrackets_literals]
  exact standFor_literals hf

/-- An array text without its brackets loads as the text that it was made from, and has itself for
an array text. -/
theorem arrayText_roundTrip (h : arrayText text count = .ok table) :
    (∃ values, values.length = count ∧ loadText count text = .ok values ∧
      loadText count (withoutBrackets table) = .ok values) ∧
    arrayText (withoutBrackets table) count = .ok table := by
  obtain ⟨hc, ws, hw, hs, hl, rfl⟩ := standFor_withoutBrackets h
  refine ⟨⟨ws, hl, ?_, ?_⟩, ?_⟩
  · rw [loadText_of_standFor hw, if_pos hl]
  · rw [loadText_of_standFor hs, if_pos hl]
  · rw [arrayText_of_standFor hs hc, if_pos hl]

/-- A value that shortens, a negative zero, a subnormal and a value that rounds to its neighbour. -/
theorem arrayText_roundTrip_small :
    (∃ values, values.length = 4 ∧ loadText 4 "0.0070, -0.0\n1e-45,33554435" = .ok values ∧
      loadText 4 (withoutBrackets "[\n    0.007, -0.0, 1e-45, 33554436.0,\n]\n") = .ok values) ∧
    arrayText (withoutBrackets "[\n    0.007, -0.0, 1e-45, 33554436.0,\n]\n") 4 =
      .ok "[\n    0.007, -0.0, 1e-45, 33554436.0,\n]\n" :=
  arrayText_roundTrip (by decide +kernel)

end

end WeightTables
