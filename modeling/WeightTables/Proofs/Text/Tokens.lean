import WeightTables.Text.Tokens
import Mathlib.Data.List.TakeWhile
import Mathlib.Data.List.Basic

/-! Runs of a text that is put together from words and separators. -/

namespace WeightTables

section

variable {separator : Char → Prop} [DecidablePred separator]

def IsWord (separator : Char → Prop) (w : List Char) : Prop := w ≠ [] ∧ ∀ c ∈ w, ¬ separator c

theorem runs_nil : runs separator [] = [] := rfl

theorem runs_cons_separator {c : Char} (h : separator c) (cs : List Char) :
    runs separator (c :: cs) = runs separator cs :=
  runs_append_cons h [] cs

theorem stretches_of_clean {w : List Char} (h : ∀ c ∈ w, ¬ separator c) :
    stretches separator w = [w] := by
  induction w with
  | nil => rfl
  | cons c cs ih =>
    have hc := h c List.mem_cons_self
    have hs := ih fun d hd => h d (List.mem_cons_of_mem c hd)
    rw [stretches, if_neg hc, hs, List.modifyHead_cons]

theorem runs_word {w : List Char} (h : IsWord separator w) : runs separator w = [w] := by
  simp [runs, stretches_of_clean h.2, h.1]

theorem runs_word_append_cons {w : List Char} (hw : IsWord separator w) {c : Char}
    (hc : separator c) (cs : List Char) :
    runs separator (w ++ c :: cs) = w :: runs separator cs := by
  rw [runs_append_cons hc, runs_word hw, List.singleton_append]

theorem runs_separators_append {s : List Char} (h : ∀ c ∈ s, separator c) (cs : List Char) :
    runs separator (s ++ cs) = runs separator cs := by
  induction s with
  | nil => rfl
  | cons c s ih =>
    rw [List.cons_append, runs_cons_separator (h c List.mem_cons_self),
      ih fun d hd => h d (List.mem_cons_of_mem c hd)]

theorem runs_intercalate_append {words : List (List Char)}
    (hw : ∀ w ∈ words, IsWord separator w) {c : Char} (hc : separator c) {s : List Char}
    (hs : ∀ c ∈ s, separator c) (cs : List Char) (hne : words ≠ []) :
    runs separator ((c :: s).intercalate words ++ c :: cs) = words ++ runs separator cs := by
  induction words with
  | nil => exact absurd rfl hne
  | cons w words ih =>
    have hh := hw w List.mem_cons_self
    cases words with
    | nil =>
      rw [List.intercalate_singleton, runs_word_append_cons hh hc, List.singleton_append]
    | cons v words =>
      have ht := ih (fun x hx => hw x (List.mem_cons_of_mem w hx)) (by simp)
      rw [List.intercalate_cons_cons, List.append_assoc, List.append_assoc, List.cons_append,
        runs_word_append_cons hh hc, runs_separators_append hs, ht]
      rfl

theorem runs_intercalate {words : List (List Char)} (hw : ∀ w ∈ words, IsWord separator w)
    {c : Char} (hc : separator c) {s : List Char} (hs : ∀ c ∈ s, separator c) :
    runs separator ((c :: s).intercalate words) = words := by
  by_cases hne : words = []
  · rw [hne]
    rfl
  · have hr := runs_intercalate_append hw hc hs [] hne
    rw [runs_append_cons hc, runs_nil, List.append_nil, List.append_nil] at hr
    exact hr

/-- Nothing, or a text that starts with a separator. -/
def StartsApart (separator : Char → Prop) (cs : List Char) : Prop :=
  ∀ c, cs.head? = some c → separator c

def EndsApart (separator : Char → Prop) (cs : List Char) : Prop :=
  ∀ c, cs.getLast? = some c → separator c

instance (cs : List Char) : Decidable (StartsApart separator cs) :=
  decidable_of_iff (cs.head?.all (separator ·)) (by simp [StartsApart, Option.all_eq_true])

instance (cs : List Char) : Decidable (EndsApart separator cs) :=
  decidable_of_iff (cs.getLast?.all (separator ·)) (by simp [EndsApart, Option.all_eq_true])

theorem runs_word_append {w cs : List Char} (hw : IsWord separator w)
    (hc : StartsApart separator cs) : runs separator (w ++ cs) = w :: runs separator cs := by
  cases cs with
  | nil => rw [List.append_nil, runs_word hw, runs_nil]
  | cons c cs =>
    have hs := hc c rfl
    rw [runs_word_append_cons hw hs, runs_cons_separator hs]

theorem runs_append {before : List Char} (h : EndsApart separator before) (after : List Char) :
    runs separator (before ++ after) = runs separator before ++ runs separator after := by
  rcases List.eq_nil_or_concat' before with rfl | ⟨front, c, rfl⟩
  · rfl
  · have hc : separator c := h c (by simp)
    rw [List.append_assoc, List.singleton_append, runs_append_cons hc, runs_append_cons hc,
      runs_nil, List.append_nil]

theorem exists_word {c : Char} (hc : ¬ separator c) (cs : List Char) :
    ∃ w rest, c :: cs = w ++ rest ∧ IsWord separator w ∧ StartsApart separator rest ∧
      rest.length ≤ cs.length := by
  refine ⟨c :: cs.takeWhile (¬ separator ·), cs.dropWhile (¬ separator ·), ?_, ?_, ?_,
    (List.dropWhile_suffix _).length_le⟩
  · rw [List.cons_append, List.takeWhile_append_dropWhile]
  · refine ⟨List.cons_ne_nil _ _, fun d hd => ?_⟩
    rcases List.mem_cons.mp hd with rfl | hd
    · exact hc
    · simpa using List.mem_takeWhile_imp hd
  · intro d hd
    have hn := List.head?_dropWhile_not (fun c => decide (¬ separator c)) cs
    rw [hd] at hn
    simpa using hn

/-- Every run of a text stands in it between a part that ends apart and one that starts apart. -/
theorem exists_cut {cs w : List Char} {i : Nat} (h : (runs separator cs)[i]? = some w) :
    ∃ before after, cs = before ++ (w ++ after) ∧ IsWord separator w ∧
      EndsApart separator before ∧ StartsApart separator after ∧
      (runs separator before).length = i := by
  induction hn : cs.length using Nat.strongRecOn generalizing cs i with
  | ind n ih =>
    cases cs with
    | nil => simp [runs_nil] at h
    | cons c cs =>
      rw [List.length_cons] at hn
      by_cases hc : separator c
      · rw [runs_cons_separator hc] at h
        obtain ⟨before, after, rfl, hw, hb, ha, hi⟩ := ih cs.length (by omega) h rfl
        refine ⟨c :: before, after, rfl, hw, fun d hd => ?_, ha, ?_⟩
        · cases before with
          | nil => exact Option.some.inj hd ▸ hc
          | cons b before => exact hb d (by simpa using hd)
        · rwa [runs_cons_separator hc]
      · obtain ⟨word, rest, hcs, hword, hrest, hlen⟩ := exists_word hc cs
        rw [hcs] at h ⊢
        rw [runs_word_append hword hrest] at h
        cases i with
        | zero =>
          obtain rfl := Option.some.inj h
          exact ⟨[], rest, rfl, hword, by simp [EndsApart], hrest, rfl⟩
        | succ i =>
          obtain ⟨before, after, rfl, hw, hb, ha, hi⟩ := ih rest.length (by omega) h rfl
          -- the rest cannot start with the run itself, because it starts apart
          have hne : before ≠ [] := by
            rintro rfl
            obtain ⟨d, ds, rfl⟩ := List.exists_cons_of_ne_nil hw.1
            exact hw.2 d List.mem_cons_self (hrest d rfl)
          have hbefore : StartsApart separator before := by
            intro d hd
            exact hrest d (by rw [List.head?_append_of_ne_nil _ hne, hd])
          refine ⟨word ++ before, after, by rw [List.append_assoc], hw, fun d hd => ?_, ha, ?_⟩
          · exact hb d (by rwa [List.getLast?_append_of_ne_nil _ hne] at hd)
          · rw [runs_word_append hword hbefore, List.length_cons, hi]

end

/-- A token between what comes before it and what comes after it, each of which is empty or set
apart from the token by a separator. -/
structure Around (text before token after : String) : Prop where
  text_eq : text = before ++ token ++ after
  ends : EndsApart IsSeparator before.toList
  starts : StartsApart IsSeparator after.toList

section

variable {text before after token : String} {i : Nat}

theorem tokens_around (hb : EndsApart IsSeparator before.toList)
    (hw : IsWord IsSeparator token.toList) (ha : StartsApart IsSeparator after.toList) :
    tokens (before ++ token ++ after) = tokens before ++ token :: tokens after := by
  rw [tokens, String.toList_append, String.toList_append, List.append_assoc, runs_append hb,
    runs_word_append hw ha, List.map_append, List.map_cons, String.ofList_toList]
  rfl

theorem exists_around (h : (tokens text)[i]? = some token) :
    ∃ before after, Around text before token after ∧ (tokens before).length = i ∧
      IsWord IsSeparator token.toList := by
  rw [tokens, List.getElem?_map, Option.map_eq_some_iff] at h
  obtain ⟨w, hw, rfl⟩ := h
  obtain ⟨before, after, hcs, hword, hb, ha, hi⟩ := exists_cut hw
  refine ⟨String.ofList before, String.ofList after, ⟨?_, ?_, ?_⟩, ?_, ?_⟩
  · rw [← String.ofList_toList (s := text), hcs, ← List.append_assoc]
    simp only [String.ofList_append]
  · rwa [String.toList_ofList]
  · rwa [String.toList_ofList]
  · rwa [tokens, String.toList_ofList, List.length_map]
  · rwa [String.toList_ofList]

end

end WeightTables
