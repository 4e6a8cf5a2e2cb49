import WeightTables.Export.ArrayText
import WeightTables.Proofs.Text.Tokens
import WeightTables.Proofs.Weight.Literal

/-! The layout of an array text. Without its brackets it is a text whose tokens are the literals
that were laid out. -/

namespace WeightTables

theorem flatten_rowsOfEight {α : Type} (l : List α) : (rowsOfEight l).flatten = l := by
  fun_induction rowsOfEight l with
  | case1 => rfl
  | case2 l h ih => rw [List.flatten_cons, ih, List.take_append_drop]

theorem ne_nil_of_mem_rowsOfEight {α : Type} {l row : List α} (h : row ∈ rowsOfEight l) :
    row ≠ [] := by
  fun_induction rowsOfEight l with
  | case1 => simp at h
  | case2 l hl ih =>
    rcases List.mem_cons.mp h with rfl | h
    · simpa using hl
    · exact ih h

theorem mem_of_mem_rowsOfEight {α : Type} {l row : List α} {a : α} (h : row ∈ rowsOfEight l)
    (ha : a ∈ row) : a ∈ l := by
  rw [← flatten_rowsOfEight l]
  exact List.mem_flatten_of_mem h ha

def rowChars (literals : List String) : List Char :=
  [' ', ' ', ' ', ' '] ++ [',', ' '].intercalate (literals.map String.toList) ++ [',', '\n']

theorem toList_rowText (literals : List String) :
    (rowText literals).toList = rowChars literals := by
  simp [rowText, rowChars, String.toList_intercalate]

theorem toList_layOut (literals : List String) :
    (layOut literals).toList =
      '[' :: '\n' :: ((rowsOfEight literals).flatMap rowChars ++ [']', '\n']) := by
  simp [layOut, String.toList_join, List.flatMap_map, toList_rowText]

theorem mem_intercalate {α : Type} {sep : List α} {ls : List (List α)} {a : α}
    (h : a ∈ sep.intercalate ls) : a ∈ sep ∨ ∃ l ∈ ls, a ∈ l := by
  induction ls with
  | nil => simp at h
  | cons l ls ih =>
    cases ls with
    | nil =>
      rw [List.intercalate_singleton] at h
      exact .inr ⟨l, List.mem_cons_self, h⟩
    | cons m ls =>
      rw [List.intercalate_cons_cons, List.mem_append, List.mem_append] at h
      rcases h with (h | h) | h
      · exact .inr ⟨l, List.mem_cons_self, h⟩
      · exact .inl h
      · rcases ih h with hs | ⟨k, hk, ha⟩
        · exact .inl hs
        · exact .inr ⟨k, List.mem_cons_of_mem l hk, ha⟩

abbrev NotBracket (c : Char) : Prop := c ≠ '[' ∧ c ≠ ']'

theorem notBracket_of_mem_rowChars {literals : List String}
    (h : ∀ l ∈ literals, ∀ c ∈ l.toList, NotBracket c) {c : Char} (hc : c ∈ rowChars literals) :
    NotBracket c := by
  unfold rowChars at hc
  rw [List.mem_append, List.mem_append] at hc
  rcases hc with (hc | hc) | hc
  · have he : c = ' ' := by simpa using hc
    rw [he]; decide
  · rcases mem_intercalate hc with hs | ⟨l, hl, hcl⟩
    · have he : c = ',' ∨ c = ' ' := by simpa using hs
      rcases he with rfl | rfl <;> decide
    · obtain ⟨s, hs, rfl⟩ := List.mem_map.mp hl
      exact h s hs c hcl
  · have he : c = ',' ∨ c = '\n' := by simpa using hc
    rcases he with rfl | rfl <;> decide

theorem toList_withoutBrackets_layOut {literals : List String}
    (h : ∀ l ∈ literals, ∀ c ∈ l.toList, NotBracket c) :
    (withoutBrackets (layOut literals)).toList =
      '\n' :: ((rowsOfEight literals).flatMap rowChars ++ ['\n']) := by
  have hr : ((rowsOfEight literals).flatMap rowChars).filter (fun c => NotBracket c) =
      (rowsOfEight literals).flatMap rowChars := by
    rw [List.filter_eq_self]
    intro c hc
    obtain ⟨row, hrow, hcr⟩ := List.mem_flatMap.mp hc
    exact decide_eq_true
      (notBracket_of_mem_rowChars (fun l hl => h l (mem_of_mem_rowsOfEight hrow hl)) hcr)
  rw [withoutBrackets, toList_layOut, String.toList_ofList, List.filter_cons_of_neg (by decide),
    List.filter_cons_of_pos (by decide), List.filter_append, hr]
  rfl

theorem isSeparator_comma : IsSeparator ',' := .inl rfl

theorem isSeparator_of_mem_blanks {n : Nat} : ∀ c ∈ List.replicate n ' ', IsSeparator c := by
  intro c hc
  rw [List.eq_of_mem_replicate hc]
  decide

theorem runs_rowChars_append {literals : List String} (hne : literals ≠ [])
    (h : ∀ l ∈ literals, IsWord IsSeparator l.toList) (cs : List Char) :
    runs IsSeparator (rowChars literals ++ cs) =
      literals.map String.toList ++ runs IsSeparator cs := by
  have hw : ∀ w ∈ literals.map String.toList, IsWord IsSeparator w := by
    intro w hw
    obtain ⟨l, hl, rfl⟩ := List.mem_map.mp hw
    exact h l hl
  have hm : literals.map String.toList ≠ [] := by simpa using hne
  have hindent : ∀ c ∈ [' ', ' ', ' ', ' '], IsSeparator c := @isSeparator_of_mem_blanks 4
  have hgap : ∀ c ∈ [' '], IsSeparator c := @isSeparator_of_mem_blanks 1
  rw [rowChars, List.append_assoc, List.append_assoc, runs_separators_append hindent,
    List.cons_append, runs_intercalate_append hw isSeparator_comma hgap _ hm,
    List.singleton_append, runs_cons_separator (by decide)]

theorem runs_rows_append {rows : List (List String)} (hne : ∀ row ∈ rows, row ≠ [])
    (h : ∀ row ∈ rows, ∀ l ∈ row, IsWord IsSeparator l.toList) (cs : List Char) :
    runs IsSeparator (rows.flatMap rowChars ++ cs) =
      rows.flatten.map String.toList ++ runs IsSeparator cs := by
  induction rows with
  | nil => rfl
  | cons row rows ih =>
    have hrow := runs_rowChars_append (hne row List.mem_cons_self) (h row List.mem_cons_self)
      (rows.flatMap rowChars ++ cs)
    have hrows := ih (fun r hr => hne r (List.mem_cons_of_mem row hr))
      (fun r hr => h r (List.mem_cons_of_mem row hr))
    rw [List.flatMap_cons, List.append_assoc, hrow, hrows, List.flatten_cons, List.map_append,
      List.append_assoc]

theorem tokens_withoutBrackets_layOut {literals : List String}
    (hw : ∀ l ∈ literals, IsWord IsSeparator l.toList)
    (hb : ∀ l ∈ literals, ∀ c ∈ l.toList, NotBracket c) :
    tokens (withoutBrackets (layOut literals)) = literals := by
  have hr := runs_rows_append (fun _ => ne_nil_of_mem_rowsOfEight)
    (fun _ hrow _ hl => hw _ (mem_of_mem_rowsOfEight hrow hl)) ['\n']
  rw [tokens, toList_withoutBrackets_layOut hb, runs_cons_separator (by decide), hr,
    flatten_rowsOfEight, runs_cons_separator (by decide), runs_nil, List.append_nil, List.map_map]
  simp [Function.comp_def]

end WeightTables
