import WeightTables.Proofs.Export.ArrayText
import Mathlib.Data.List.DropRight

/-! Arrays of float literals. The elements stand between brackets with commas between them, one more
comma may follow the last of them, and blanks may stand around each. An array text is such an array,
and its elements are the weights that it was made from. -/

namespace WeightTables

def trim (cs : List Char) : List Char :=
  (cs.dropWhile Char.isWhitespace).rdropWhile Char.isWhitespace

/-- Digits come first, and a point between digits or an exponent marks the numeral as that of a
float. There is a sign only below zero. -/
def Numeral.IsFloatLiteral (n : Numeral) : Prop :=
  n.sign ≠ .plus ∧ n.whole ≠ [] ∧ n.fraction ≠ some [] ∧ (n.fraction.isSome ∨ n.scale.isSome) ∧
    ∀ s ∈ n.scale, s.mark = 'e' ∧ s.sign ≠ .plus

instance (n : Numeral) : Decidable n.IsFloatLiteral :=
  inferInstanceAs (Decidable (_ ∧ _ ∧ _ ∧ _ ∧ _))

def element? (cs : List Char) : Option Weight :=
  (Numeral.parse? cs).bind fun n => if n.IsFloatLiteral then Weight.ofNumeral? n else none

abbrev IsComma (c : Char) : Prop := c = ','

def pieces (cs : List Char) : List (List Char) := (stretches IsComma cs).map trim

/-- What stands between commas, where nothing has to stand behind the last one. -/
def elements (cs : List Char) : List (List Char) :=
  if (pieces cs).getLast? = some [] then (pieces cs).dropLast else pieces cs

/-- Reads an array of float literals, which has to be the whole text. -/
def weightsOfArray? (text : String) : Option (List Weight) :=
  match trim text.toList with
  | '[' :: cs => if cs.getLast? = some ']' then (elements cs.dropLast).mapM element? else none
  | _ => none

section

variable {before inner after : List Char}

theorem trim_append (hb : ∀ c ∈ before, c.isWhitespace) (ha : ∀ c ∈ after, c.isWhitespace)
    (hi : inner ≠ []) (hf : ∀ c ∈ inner.head?, ¬ c.isWhitespace)
    (hl : ∀ c ∈ inner.getLast?, ¬ c.isWhitespace) : trim (before ++ inner ++ after) = inner := by
  obtain ⟨c, cs, rfl⟩ := List.exists_cons_of_ne_nil hi
  have hd : (before ++ (c :: cs) ++ after).dropWhile Char.isWhitespace = c :: cs ++ after := by
    rw [List.append_assoc, List.dropWhile_append_of_pos hb, List.cons_append,
      List.dropWhile_cons_of_neg (hf c rfl)]
  have har : ∀ c ∈ after.reverse, c.isWhitespace := fun c hc => ha c (List.mem_reverse.mp hc)
  have hr : (c :: cs).rdropWhile Char.isWhitespace = c :: cs :=
    List.rdropWhile_eq_self_iff.mpr fun hne => hl _ (List.getLast?_eq_some_getLast hne)
  rw [trim, hd, List.rdropWhile, List.reverse_append, List.dropWhile_append_of_pos har]
  exact hr

theorem trim_blanks (h : ∀ c ∈ before, c.isWhitespace) : trim before = [] := by
  have hd : before.dropWhile Char.isWhitespace = [] := List.dropWhile_eq_nil_iff.mpr h
  rw [trim, hd, List.rdropWhile_nil]

theorem not_isComma_of_isWhitespace {c : Char} (h : c.isWhitespace) : ¬ IsComma c := by
  rintro rfl
  exact absurd h (by decide)

theorem not_isWhitespace_of_isWord {w : List Char} (h : IsWord IsSeparator w) {c : Char}
    (hc : c ∈ w) : ¬ c.isWhitespace :=
  fun hw => h.2 c hc (.inr (isBlank_of_isWhitespace hw))

theorem pieces_blanks (h : ∀ c ∈ before, c.isWhitespace) : pieces before = [[]] := by
  rw [pieces, stretches_of_clean fun c hc => not_isComma_of_isWhitespace (h c hc)]
  simp [trim_blanks h]

theorem pieces_word_append_cons (hb : ∀ c ∈ before, c.isWhitespace) {w : List Char}
    (hw : IsWord IsSeparator w) (cs : List Char) :
    pieces (before ++ w ++ ',' :: cs) = w :: pieces cs := by
  have hn : ∀ c ∈ before ++ w, ¬ IsComma c := by
    intro c hc
    rcases List.mem_append.mp hc with hc | hc
    · exact not_isComma_of_isWhitespace (hb c hc)
    · exact fun he => hw.2 c hc (.inl he)
  have ht : trim (before ++ w ++ []) = w := by
    apply trim_append hb (by simp) hw.1
    · exact fun c hc => not_isWhitespace_of_isWord hw (List.mem_of_mem_head? hc)
    · exact fun c hc => not_isWhitespace_of_isWord hw (List.mem_of_mem_getLast? hc)
  have hc : IsComma ',' := rfl
  rw [List.append_nil] at ht
  rw [pieces, stretches_append_cons hc, stretches_of_clean hn, List.map_append, List.map_singleton,
    ht, List.singleton_append, pieces]

theorem pieces_intercalate_append (hb : ∀ c ∈ before, c.isWhitespace) {words : List (List Char)}
    (hw : ∀ w ∈ words, IsWord IsSeparator w) (hne : words ≠ []) (cs : List Char) :
    pieces (before ++ [',', ' '].intercalate words ++ ',' :: cs) = words ++ pieces cs := by
  induction words generalizing before with
  | nil => exact absurd rfl hne
  | cons w words ih =>
    have hh := hw w List.mem_cons_self
    cases words with
    | nil => rw [List.intercalate_singleton, pieces_word_append_cons hb hh, List.singleton_append]
    | cons v words =>
      have hgap : ∀ c ∈ [' '], c.isWhitespace := List.forall_mem_singleton.mpr rfl
      have ht := ih hgap (fun x hx => hw x (List.mem_cons_of_mem w hx)) (by simp)
      have hs := pieces_word_append_cons hb hh
        ([' '] ++ [',', ' '].intercalate (v :: words) ++ ',' :: cs)
      rw [ht] at hs
      simpa [List.intercalate_cons_cons, List.append_assoc] using hs

theorem pieces_rows (hb : ∀ c ∈ before, c.isWhitespace) {rows : List (List String)}
    (hne : ∀ row ∈ rows, row ≠ []) (hw : ∀ row ∈ rows, ∀ l ∈ row, IsWord IsSeparator l.toList) :
    pieces (before ++ rows.flatMap rowChars) = rows.flatten.map String.toList ++ [[]] := by
  -- the blanks in front are the line end of the row before, joined to the indent of the next row
  induction rows generalizing before with
  | nil =>
    rw [List.flatMap_nil, List.append_nil]
    exact pieces_blanks hb
  | cons row rows ih =>
    have hend : ∀ c ∈ ['\n'], c.isWhitespace := List.forall_mem_singleton.mpr rfl
    have hindent : ∀ c ∈ before ++ [' ', ' ', ' ', ' '], c.isWhitespace := by
      intro c hc
      rcases List.mem_append.mp hc with hc | hc
      · exact hb c hc
      · rw [List.eq_of_mem_replicate (show c ∈ List.replicate 4 ' ' from hc)]
        rfl
    have hwords : ∀ w ∈ row.map String.toList, IsWord IsSeparator w := by
      intro w hm
      obtain ⟨l, hl, rfl⟩ := List.mem_map.mp hm
      exact hw row List.mem_cons_self l hl
    have hrow : row.map String.toList ≠ [] := by simpa using hne row List.mem_cons_self
    have hrest := ih hend (fun r hr => hne r (List.mem_cons_of_mem row hr))
      (fun r hr => hw r (List.mem_cons_of_mem row hr))
    have hp := pieces_intercalate_append hindent hwords hrow (['\n'] ++ rows.flatMap rowChars)
    rw [hrest] at hp
    simpa [rowChars, List.append_assoc] using hp

theorem elements_rows {rows : List (List String)} (hne : ∀ row ∈ rows, row ≠ [])
    (hw : ∀ row ∈ rows, ∀ l ∈ row, IsWord IsSeparator l.toList) :
    elements ('\n' :: rows.flatMap rowChars) = rows.flatten.map String.toList := by
  have hend : ∀ c ∈ ['\n'], c.isWhitespace := List.forall_mem_singleton.mpr rfl
  have hp : pieces ('\n' :: rows.flatMap rowChars) = _ := pieces_rows hend hne hw
  rw [elements, hp, if_pos List.getLast?_concat, List.dropLast_concat]

end

theorem trim_layOut (literals : List String) :
    trim (layOut literals).toList =
      '[' :: ('\n' :: (rowsOfEight literals).flatMap rowChars ++ [']']) := by
  generalize hr : '\n' :: (rowsOfEight literals).flatMap rowChars = rows
  have hl : (layOut literals).toList = [] ++ '[' :: (rows ++ [']']) ++ ['\n'] := by
    rw [toList_layOut, ← hr]
    simp
  have hlast : ('[' :: (rows ++ [']'])).getLast? = some ']' := by
    rw [← List.cons_append, List.getLast?_concat]
  rw [hl]
  apply trim_append
  · simp
  · exact List.forall_mem_singleton.mpr rfl
  · simp
  · intro c hc
    rw [← Option.some.inj hc]
    decide
  · intro c hc
    rw [← Option.some.inj (hlast.symm.trans hc)]
    decide

theorem Numeral.isFloatLiteral_signed {n : Numeral} {negative : Bool} (h : n.IsFloatLiteral) :
    (n.signed negative).IsFloatLiteral := by
  obtain ⟨hs, h⟩ := h
  refine ⟨?_, h⟩
  cases negative with
  | false => exact hs
  | true => simp [signed]

theorem isFloatLiteral_fixedNumeral (n places : Nat) : (fixedNumeral n places).IsFloatLiteral := by
  refine ⟨by simp [fixedNumeral], Nat.toDigits_ne_nil, ?_, .inl rfl, by simp [fixedNumeral]⟩
  simp [fixedNumeral, List.leftpad, Nat.toDigits_ne_nil]

namespace Decimal

theorem isFloatLiteral_positionalNumeral (d : Decimal) : d.positionalNumeral.IsFloatLiteral := by
  rw [positionalNumeral]
  split <;> exact isFloatLiteral_fixedNumeral _ _

theorem isFloatLiteral_scientificNumeral (d : Decimal) : d.scientificNumeral.IsFloatLiteral := by
  have hl : 0 < (Nat.toDigits 10 d.digits).length := List.length_pos_iff.mpr Nat.toDigits_ne_nil
  refine ⟨by simp [scientificNumeral], ?_, ?_, .inr rfl, ?_⟩
  · simp [scientificNumeral, Nat.toDigits_ne_nil]
  · rw [scientificNumeral]
    dsimp only
    split
    · simp
    · simp only [ne_eq, Option.some.injEq, List.drop_eq_nil_iff]
      omega
  · intro s hs
    rw [← Option.some.inj hs, exponentScale]
    exact ⟨rfl, by dsimp only; split <;> decide⟩

end Decimal

theorem Weight.isFloatLiteral_literalNumeral (w : Weight) : w.literalNumeral.IsFloatLiteral := by
  apply Numeral.isFloatLiteral_signed
  rw [magnitudeNumeral]
  split
  · exact Decimal.isFloatLiteral_positionalNumeral _
  · exact Decimal.isFloatLiteral_scientificNumeral _

theorem element?_literal {w : Weight} (h : w.IsFinite) : element? w.literal.toList = some w := by
  have hp : Numeral.parse? w.literal.toList = some w.literalNumeral := by
    rw [Weight.toList_literal h, Numeral.parse?_toList w.wellFormed_literalNumeral]
  have hw := Weight.ofText?_literal h
  rw [Weight.ofText?, hp, Option.bind_some] at hw
  rw [element?, hp, Option.bind_some, if_pos w.isFloatLiteral_literalNumeral, hw]

section

variable {ws : List Weight}

theorem mapM_element?_literals (h : ∀ w ∈ ws, w.IsFinite) :
    ((ws.map Weight.literal).map String.toList).mapM element? = some ws := by
  induction ws with
  | nil => rfl
  | cons w ws ih =>
    have hh := element?_literal (h w List.mem_cons_self)
    have ht := ih fun v hv => h v (List.mem_cons_of_mem w hv)
    rw [List.map_cons, List.map_cons, List.mapM_cons, hh, ht]
    rfl

theorem weightsOfArray?_layOut (h : ∀ w ∈ ws, w.IsFinite) :
    weightsOfArray? (layOut (ws.map Weight.literal)) = some ws := by
  have he := elements_rows (fun _ => ne_nil_of_mem_rowsOfEight)
    (fun _ hrow _ hl => isWord_of_mem_literals ws _ (mem_of_mem_rowsOfEight hrow hl))
  rw [flatten_rowsOfEight] at he
  simp only [weightsOfArray?, trim_layOut]
  rw [if_pos List.getLast?_concat, List.dropLast_concat, he, mapM_element?_literals h]

example : weightsOfArray? "[1.5, -2e3]" = some [⟨0x3fc00000⟩, ⟨0xc4fa0000⟩] ∧
    weightsOfArray? "[1, 2.0]" = none := by decide +kernel

end

end WeightTables
