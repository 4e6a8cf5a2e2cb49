import WeightTables.Export.ArrayText
import WeightTables.Loading
import WeightTables.Proofs.Text.Tokens

/-! The tokens of a text are the only way to cut it into words with gaps of separators around them.
What a text loads as and what its array text is depends on the words alone, not on the gaps. -/

namespace WeightTables

/-- A text cut into words, with a gap in front of the first one and a gap behind each of them. Only
the first and the last gap may be empty. -/
structure Cut (separator : Char → Prop) (cs : List Char) (words : List (List Char))
    (front : List Char) (gaps : List (List Char)) : Prop where
  text_eq : cs = front ++ (words.zipWith (· ++ ·) gaps).flatten
  length_eq : gaps.length = words.length
  isWord : ∀ w ∈ words, IsWord separator w
  isGap : ∀ s ∈ front :: gaps, ∀ c ∈ s, separator c
  between : ∀ s ∈ gaps.dropLast, s ≠ []

section

variable {separator : Char → Prop} {cs front w : List Char} {words gaps : List (List Char)}
  {c : Char}

theorem Cut.blank (h : ∀ c ∈ front, separator c) : Cut separator front [] front [] := by
  constructor <;> simp_all

/-- The first word comes behind its gap, and what follows it is cut in turn. -/
theorem Cut.uncons (h : Cut separator cs (w :: words) front gaps) :
    ∃ rest gap gaps', cs = front ++ (w ++ rest) ∧ IsWord separator w ∧
      StartsApart separator rest ∧ Cut separator rest words gap gaps' := by
  obtain ⟨ht, hl, hw, hg, hb⟩ := h
  cases gaps with
  | nil => simp at hl
  | cons gap gaps =>
    refine ⟨gap ++ (words.zipWith (· ++ ·) gaps).flatten, gap, gaps, by simpa using ht,
      hw w List.mem_cons_self, fun c hc => ?_, rfl, by simpa using hl,
      fun v hv => hw v (List.mem_cons_of_mem w hv), fun s hs => hg s (List.mem_cons_of_mem _ hs),
      fun s hs => hb s ?_⟩
    · by_cases hgap : gap = []
      · -- an empty gap is the last one, so nothing follows it
        have hgaps : gaps = [] := by
          by_contra hne
          exact hb gap (by simp [List.dropLast_cons_of_ne_nil hne]) hgap
        simp [hgap, hgaps] at hc
      · rw [List.head?_append_of_ne_nil _ hgap] at hc
        exact hg gap (by simp) c (List.mem_of_mem_head? hc)
    · have hne : gaps ≠ [] := List.ne_nil_of_mem (List.dropLast_subset _ hs)
      rw [List.dropLast_cons_of_ne_nil hne]
      exact List.mem_cons_of_mem _ hs

theorem Cut.front_separator (h : Cut separator cs words front gaps) : ∀ c ∈ front, separator c :=
  h.isGap front List.mem_cons_self

theorem Cut.runs_eq [DecidablePred separator] (h : Cut separator cs words front gaps) :
    runs separator cs = words := by
  induction words generalizing cs front gaps with
  | nil =>
    have hcs : cs = front ++ [] := by simpa using h.text_eq
    rw [hcs, runs_separators_append h.front_separator, runs_nil]
  | cons w words ih =>
    obtain ⟨rest, gap, gaps', hcs, hw, ha, hr⟩ := h.uncons
    rw [hcs, runs_separators_append h.front_separator, runs_word_append hw ha, ih hr]

/-- The characters that are no separators are those of the words, in their order. -/
theorem Cut.filter_eq [DecidablePred separator] (h : Cut separator cs words front gaps) :
    cs.filter (¬ separator ·) = words.flatten := by
  have hf : front.filter (¬ separator ·) = [] := by simpa using h.front_separator
  induction words generalizing cs front gaps with
  | nil =>
    have hcs : cs = front ++ [] := by simpa using h.text_eq
    rw [hcs, List.append_nil, hf, List.flatten_nil]
  | cons w words ih =>
    obtain ⟨rest, gap, gaps', hcs, hw, ha, hr⟩ := h.uncons
    have hword : w.filter (¬ separator ·) = w := by simpa using hw.2
    have hgap : gap.filter (¬ separator ·) = [] := by simpa using hr.front_separator
    rw [hcs, List.filter_append, List.filter_append, hf, hword, ih hr hgap]
    rfl

theorem Cut.cons_separator (h : Cut separator cs words front gaps) (hc : separator c) :
    Cut separator (c :: cs) words (c :: front) gaps where
  text_eq := by rw [h.text_eq, List.cons_append]
  length_eq := h.length_eq
  isWord := h.isWord
  isGap := by
    obtain ⟨hf, hg⟩ := List.forall_mem_cons.mp h.isGap
    exact List.forall_mem_cons.mpr ⟨List.forall_mem_cons.mpr ⟨hc, hf⟩, hg⟩
  between := h.between

/-- Without a gap in between, a character becomes the first one of the word that follows. -/
theorem Cut.cons_letter (h : Cut separator cs (w :: words) [] gaps) (hc : ¬ separator c) :
    Cut separator (c :: cs) ((c :: w) :: words) [] gaps where
  text_eq := by
    obtain ⟨gap, gaps, rfl⟩ := List.exists_cons_of_ne_nil
      (fun hn => by simpa [hn] using h.length_eq : gaps ≠ [])
    simpa using h.text_eq
  length_eq := h.length_eq
  isWord v hv := by
    obtain ⟨hw, hws⟩ := List.forall_mem_cons.mp h.isWord
    rcases List.mem_cons.mp hv with rfl | hv
    · exact ⟨List.cons_ne_nil _ _, List.forall_mem_cons.mpr ⟨hc, hw.2⟩⟩
    · exact hws v hv
  isGap := h.isGap
  between := h.between

/-- In front of a gap, or of nothing but a gap, a character becomes a word. -/
theorem Cut.cons_word (h : Cut separator cs words front gaps) (hc : ¬ separator c)
    (hf : words ≠ [] → front ≠ []) : Cut separator (c :: cs) ([c] :: words) [] (front :: gaps) where
  text_eq := by simpa using h.text_eq
  length_eq := by simpa using h.length_eq
  isWord := List.forall_mem_cons.mpr ⟨⟨List.cons_ne_nil _ _, by simpa using hc⟩, h.isWord⟩
  isGap := List.forall_mem_cons.mpr ⟨by simp, h.isGap⟩
  between s hs := by
    by_cases hg : gaps = []
    · simp [hg] at hs
    · have hw : words ≠ [] := fun hn => hg (by simpa [hn] using h.length_eq)
      rw [List.dropLast_cons_of_ne_nil hg] at hs
      rcases List.mem_cons.mp hs with rfl | hs
      · exact hf hw
      · exact h.between s hs

theorem exists_gaps [DecidablePred separator] (cs : List Char) :
    ∃ words front gaps, Cut separator cs words front gaps := by
  induction cs with
  | nil => exact ⟨[], [], [], .blank (by simp)⟩
  | cons c cs ih =>
    obtain ⟨words, front, gaps, h⟩ := ih
    by_cases hc : separator c
    · exact ⟨words, c :: front, gaps, h.cons_separator hc⟩
    · by_cases hf : words ≠ [] → front ≠ []
      · exact ⟨[c] :: words, [], front :: gaps, h.cons_word hc hf⟩
      · obtain ⟨hw, hfront⟩ := Classical.not_imp.mp hf
        obtain ⟨w, words, rfl⟩ := List.exists_cons_of_ne_nil hw
        obtain rfl := not_not.mp hfront
        exact ⟨(c :: w) :: words, [], gaps, h.cons_letter hc⟩

end

/-- A text whose words are the given ones, with separators around them. -/
def CutInto (text : String) (words : List String) : Prop :=
  ∃ front gaps, Cut IsSeparator text.toList (words.map String.toList) front gaps

section

variable {text : String} {words : List String}

theorem CutInto.eq_tokens (h : CutInto text words) : words = tokens text := by
  obtain ⟨front, gaps, hc⟩ := h
  rw [tokens, hc.runs_eq, List.map_map]
  simp [Function.comp_def]

theorem map_toList_tokens (text : String) :
    (tokens text).map String.toList = runs IsSeparator text.toList := by
  rw [tokens, List.map_map]
  simp [Function.comp_def]

theorem cutInto_tokens (text : String) : CutInto text (tokens text) := by
  obtain ⟨words, front, gaps, h⟩ := @exists_gaps IsSeparator _ text.toList
  exact ⟨front, gaps, by rwa [map_toList_tokens, h.runs_eq]⟩

theorem filter_eq_tokens (text : String) :
    text.toList.filter (¬ IsSeparator ·) = (tokens text).flatMap String.toList := by
  obtain ⟨front, gaps, h⟩ := cutInto_tokens text
  rw [h.filter_eq, List.flatMap_def]

end

/-- The tokens are the only words that a text can be cut into. They hold all that is no separator,
and however they are set apart, the table and the array text are the same. -/
theorem tokens_onlyCut (text : String) :
    (∀ words, CutInto text words ↔ words = tokens text) ∧
      text.toList.filter (¬ IsSeparator ·) = (tokens text).flatMap String.toList ∧
      ∀ other, CutInto other (tokens text) → ∀ count,
        loadText count other = loadText count text ∧
          arrayText other count = arrayText text count := by
  refine ⟨fun words => ⟨CutInto.eq_tokens, fun h => h ▸ cutInto_tokens text⟩,
    filter_eq_tokens text, fun other h count => ?_⟩
  have ht : tokens other = tokens text := h.eq_tokens.symm
  exact ⟨by rw [loadText, loadText, ht], by rw [arrayText, arrayText, ht]⟩

/-- An ideographic space and a next line separate as well as a comma does. -/
theorem tokens_onlyCut_small :
    CutInto "\u3000-1,,e5\u0085" ["-1", "e5"] ∧
      loadText 7 "\u3000-1,,e5\u0085" = loadText 7 "-1 e5" ∧
      arrayText "\u3000-1,,e5\u0085" 7 = arrayText "-1 e5" 7 := by
  have hc := ((tokens_onlyCut "\u3000-1,,e5\u0085").1 ["-1", "e5"]).mpr (by decide +kernel)
  have ht : tokens "-1 e5" = ["-1", "e5"] := by decide +kernel
  exact ⟨hc, (tokens_onlyCut "-1 e5").2.2 "\u3000-1,,e5\u0085" (ht ▸ hc) 7⟩

end WeightTables
