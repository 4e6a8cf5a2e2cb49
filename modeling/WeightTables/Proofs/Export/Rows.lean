import WeightTables.Proofs.Export.ArrayReading
import WeightTables.Proofs.Weight.Accepted

/-! The lines of an array text. Between the lines with the brackets there is a row for every eight
literals, the last of which may be shorter but is not empty, and each literal is one of a float. -/

namespace WeightTables

section

variable {α : Type} {l row : List α}

theorem length_rowsOfEight (l : List α) : (rowsOfEight l).length = (l.length + 7) / 8 := by
  fun_induction rowsOfEight l with
  | case1 => simp
  | case2 l h ih =>
    have hl := List.length_pos_iff.mpr h
    rw [List.length_cons, ih, List.length_drop]
    omega

theorem length_le_of_mem_rowsOfEight (h : row ∈ rowsOfEight l) : row.length ≤ 8 := by
  fun_induction rowsOfEight l with
  | case1 => simp at h
  | case2 l hl ih =>
    rcases List.mem_cons.mp h with rfl | h
    · exact List.length_take_le 8 l
    · exact ih h

theorem length_of_mem_dropLast_rowsOfEight (h : row ∈ (rowsOfEight l).dropLast) :
    row.length = 8 := by
  fun_induction rowsOfEight l with
  | case1 => simp at h
  | case2 l hl ih =>
    by_cases hd : l.drop 8 = []
    · rw [hd, rowsOfEight] at h
      simp at h
    · -- only what is left over makes another row, so the first eight are there
      have hlen : 8 < l.length := by simpa using hd
      have hne : rowsOfEight (l.drop 8) ≠ [] := by
        rw [rowsOfEight, if_neg hd]
        exact List.cons_ne_nil _ _
      rw [List.dropLast_cons_of_ne_nil hne] at h
      rcases List.mem_cons.mp h with rfl | h
      · rw [List.length_take]
        omega
      · exact ih h

end

/-- A text of whole lines, each with a line feed behind it and none inside. -/
structure HasLines (text : String) (lines : List String) : Prop where
  text_eq : text = String.join (lines.map (· ++ "\n"))
  within : ∀ line ∈ lines, '\n' ∉ line.toList

def rowLine (literals : List String) : String := "    " ++ ", ".intercalate literals ++ ","

def arrayLines (rows : List (List String)) : List String := "[" :: rows.map rowLine ++ ["]"]

theorem rowText_eq_rowLine (literals : List String) :
    rowText literals = rowLine literals ++ "\n" := by
  simp [rowText, rowLine, String.append_assoc]

theorem layOut_eq_join (literals : List String) :
    layOut literals = String.join ((arrayLines (rowsOfEight literals)).map (· ++ "\n")) := by
  have hrow : rowText = (· ++ "\n") ∘ rowLine := funext rowText_eq_rowLine
  simp [layOut, arrayLines, hrow, String.append_assoc]

theorem not_mem_rowLine {c : Char} {row : List String} (hc : c ∉ [',', ' '])
    (h : ∀ l ∈ row, c ∉ l.toList) : c ∉ (rowLine row).toList := by
  intro hm
  simp only [rowLine, String.toList_append, String.toList_intercalate, List.mem_append] at hm
  rcases hm with (hm | hm) | hm
  · have he : c = ' ' := by simpa using hm
    exact hc (by simp [he])
  · rcases mem_intercalate hm with hs | ⟨cs, hcs, hm⟩
    · exact hc hs
    · obtain ⟨l, hl, rfl⟩ := List.mem_map.mp hcs
      exact h l hl hm
  · exact hc (by simp_all)

namespace Numeral

variable {n : Numeral}

theorem IsFloatLiteral.exists_mark (h : n.IsFloatLiteral) : ∃ c ∈ n.toList, c = '.' ∨ c = 'e' := by
  obtain ⟨_, _, _, hm, he⟩ := h
  rcases hm with hm | hm
  · obtain ⟨ds, hf⟩ := Option.isSome_iff_exists.mp hm
    exact ⟨'.', by simp [toList, hf], .inl rfl⟩
  · obtain ⟨s, hs⟩ := Option.isSome_iff_exists.mp hm
    exact ⟨s.mark, by simp [toList, hs, Scale.toList], .inr (he s hs).1⟩

theorem plus_not_mem_sign {s : Sign} (h : s ≠ .plus) : '+' ∉ s.toList := by
  cases s <;> simp_all [Sign.toList]

theorem plus_not_mem_digits {ds : List Char} (h : ∀ c ∈ ds, c.isDigit) : '+' ∉ ds :=
  fun hp => absurd (h '+' hp) (by decide)

theorem IsFloatLiteral.plus_not_mem (h : n.IsFloatLiteral) (hn : n.WellFormed) :
    '+' ∉ n.toList := by
  obtain ⟨hs, _, _, _, he⟩ := h
  have hdigits := plus_not_mem_digits hn.1
  rw [List.mem_append, not_or] at hdigits
  simp only [toList, List.mem_append, not_or]
  refine ⟨⟨⟨plus_not_mem_sign hs, hdigits.1⟩, ?_⟩, ?_⟩
  · cases hf : n.fraction with
    | none => simp
    | some ds => simpa [hf] using hdigits.2
  · cases hc : n.scale with
    | none => simp
    | some s =>
      obtain ⟨hm, hp⟩ := he s hc
      have hd := plus_not_mem_digits (hn.2.2 s hc).2.2
      simp [Scale.toList, hm, plus_not_mem_sign hp, hd]

end Numeral

/-- A float, and neither a whole number, nor one with a plus sign, nor a word. -/
structure IsFloatElement (l : String) : Prop where
  numeral : ∃ n : Numeral, n.WellFormed ∧ n.IsFloatLiteral ∧ l.toList = n.toList
  notWhole : ¬ ∀ c ∈ l.toList, c = '-' ∨ c.isDigit
  noPlus : '+' ∉ l.toList
  notWord : l ∉ ["inf", "-inf", "NaN"]

theorem isFloatElement_of_numeral {l : String} {n : Numeral} (hn : n.WellFormed)
    (hf : n.IsFloatLiteral) (hl : l.toList = n.toList) : IsFloatElement l where
  numeral := ⟨n, hn, hf, hl⟩
  notWhole h := by
    obtain ⟨c, hc, hm⟩ := hf.exists_mark
    have hw := h c (hl ▸ hc)
    rcases hm with rfl | rfl <;> exact absurd hw (by decide)
  noPlus := hl ▸ hf.plus_not_mem hn
  notWord h := by
    have hletter : ∃ c ∈ l.toList, c.toLower = 'n' := by
      simp only [List.mem_cons, List.not_mem_nil, or_false] at h
      rcases h with rfl | rfl | rfl
      · exact ⟨'n', by simp, rfl⟩
      · exact ⟨'n', by simp, rfl⟩
      · exact ⟨'N', by simp, rfl⟩
    obtain ⟨c, hc, hlower⟩ := hletter
    have hnumeral := Numeral.isNumeralChar_of_mem_toList hn (hl ▸ hc)
    exact Numeral.ne_letter_of_isNumeralChar hnumeral hlower

theorem isFloatElement_literal {w : Weight} (h : w.IsFinite) : IsFloatElement w.literal :=
  isFloatElement_of_numeral w.wellFormed_literalNumeral w.isFloatLiteral_literalNumeral
    (Weight.toList_literal h)

/-- An array of a number of floats, in rows of eight of which only the last may be shorter. -/
structure IsArray (text : String) (count : Nat) (table : String) (rows : List (List String)) :
    Prop where
  lines : HasLines table (arrayLines rows)
  number : rows.length = (count + 7) / 8
  full : ∀ row ∈ rows.dropLast, row.length = 8
  last : ∀ row ∈ rows.getLast?, 1 ≤ row.length ∧ row.length ≤ 8
  literals : rows.flatten.map some = (tokens text).map Weight.literalOf?
  total : rows.flatten.length = count
  element : ∀ row ∈ rows, ∀ l ∈ row, IsFloatElement l

section

variable {ts : List String} {ws : List Weight}

theorem literalOf?_of_standFor (h : StandFor ts ws) :
    (ws.map Weight.literal).map some = ts.map Weight.literalOf? := by
  induction h with
  | nil => rfl
  | cons hs _ ih =>
    rw [List.map_cons, List.map_cons, List.map_cons, ih, Weight.literalOf?, hs]
    rfl

theorem hasLines_layOut (ws : List Weight) (h : ∀ w ∈ ws, w.IsFinite) :
    HasLines (layOut (ws.map Weight.literal))
      (arrayLines (rowsOfEight (ws.map Weight.literal))) where
  text_eq := layOut_eq_join _
  within line hl := by
    have hf : ∀ l ∈ ws.map Weight.literal, '\n' ∉ l.toList := by
      intro l hl hm
      obtain ⟨w, hw, rfl⟩ := List.mem_map.mp hl
      exact absurd (Weight.isNumeralChar_of_mem_literal (h w hw) hm) (by decide)
    simp only [arrayLines, List.cons_append, List.mem_cons, List.mem_append, List.mem_map,
      List.not_mem_nil, or_false] at hl
    rcases hl with rfl | ⟨row, hrow, rfl⟩ | rfl
    · decide
    · exact not_mem_rowLine (by decide) fun l hl => hf l (mem_of_mem_rowsOfEight hrow hl)
    · decide

end

/-- An array text is an array of the literals of the tokens. -/
theorem arrayText_isArray {text table : String} {count : Nat}
    (h : arrayText text count = .ok table) : ∃ rows, IsArray text count table rows := by
  obtain ⟨_, ws, hs, hl, rfl⟩ := standFor_of_arrayText h
  have hf := isFinite_of_standFor hs
  have hlen : (ws.map Weight.literal).length = count := by rw [List.length_map, hl]
  refine ⟨rowsOfEight (ws.map Weight.literal), hasLines_layOut ws hf, ?_, ?_, ?_, ?_, ?_, ?_⟩
  · rw [length_rowsOfEight, hlen]
  · exact fun row => length_of_mem_dropLast_rowsOfEight
  · intro row hr
    have hm := List.mem_of_mem_getLast? hr
    exact ⟨List.length_pos_iff.mpr (ne_nil_of_mem_rowsOfEight hm), length_le_of_mem_rowsOfEight hm⟩
  · rw [flatten_rowsOfEight, literalOf?_of_standFor hs]
  · rw [flatten_rowsOfEight, hlen]
  · intro row hr l hl
    obtain ⟨w, hw, rfl⟩ := List.mem_map.mp (mem_of_mem_rowsOfEight hr hl)
    exact isFloatElement_literal (hf w hw)

/-- A row and a short one after it, with a whole number and an exponent among the tokens. -/
theorem arrayText_isArray_small :
    let table := "[\n    1.0, -2.0, 0.5, 1e-5, 1e16, 0.0, 7.0, 8.0,\n    -0.0,\n]\n"
    arrayText "1 -2 .5 1e-5 +1E16 0 7 8, -0" 9 = .ok table ∧
      ∃ rows, IsArray "1 -2 .5 1e-5 +1E16 0 7 8, -0" 9 table rows := by
  intro table
  have h : arrayText "1 -2 .5 1e-5 +1E16 0 7 8, -0" 9 = .ok table := by decide +kernel
  exact ⟨h, arrayText_isArray h⟩

end WeightTables
