import WeightTables.Text.Quoted
import Mathlib.Logic.Function.Defs
import Mathlib.Tactic.IntervalCases

/-! Quoting can be undone, so texts with the same quoted form are the same text. A quoted text has
no control character of ASCII in it, and no quote between the outer two that is not escaped. -/

namespace WeightTables

@[simp] theorem toString_string (s : String) : toString s = s := rfl

theorem hexDigit?_digitChar {d : Nat} (h : d < 16) : hexDigit? d.digitChar = some d := by
  interval_cases d <;> rfl

theorem hexDigits_toDigits (n : Nat) :
    ∃ values, (Nat.toDigits 16 n).mapM hexDigit? = some values ∧
      values.foldl (fun n d => 16 * n + d) 0 = n := by
  induction n using Nat.strongRecOn with
  | ind n ih =>
    by_cases hn : n < 16
    · refine ⟨[n], ?_, by simp⟩
      rw [Nat.toDigits_of_lt_base hn, List.mapM_cons, hexDigit?_digitChar hn]
      rfl
    · obtain ⟨values, hm, hv⟩ := ih (n / 16) (by omega)
      refine ⟨values ++ [n % 16], ?_, ?_⟩
      · rw [Nat.toDigits_of_base_le (by decide) (Nat.le_of_not_lt hn), List.mapM_append, hm,
          List.mapM_cons, hexDigit?_digitChar (Nat.mod_lt _ (by decide))]
        rfl
      · rw [List.foldl_append, hv]
        exact Nat.div_add_mod n 16

theorem ofHex?_toDigits (c : Char) : ofHex? (Nat.toDigits 16 c.toNat) = some c := by
  obtain ⟨values, hm, hv⟩ := hexDigits_toDigits c.toNat
  rw [ofHex?, hm]
  simp only [Option.bind_eq_bind, Option.bind_some, hv]
  rw [if_pos ⟨Nat.toDigits_ne_nil, c.valid⟩, Char.ofNat_toNat]

theorem exists_digitChar_of_mem_toDigits {n : Nat} {c : Char} (h : c ∈ Nat.toDigits 16 n) :
    ∃ d < 16, d.digitChar = c := by
  induction n using Nat.strongRecOn with
  | ind n ih =>
    by_cases hn : n < 16
    · rw [Nat.toDigits_of_lt_base hn, List.mem_singleton] at h
      exact ⟨n, hn, h.symm⟩
    · rw [Nat.toDigits_of_base_le (by decide) (Nat.le_of_not_lt hn), List.mem_append,
        List.mem_singleton] at h
      rcases h with h | h
      · exact ih (n / 16) (by omega) h
      · exact ⟨n % 16, Nat.mod_lt _ (by decide), h.symm⟩

theorem ne_brace_of_mem_toDigits {n : Nat} {c : Char} (h : c ∈ Nat.toDigits 16 n) : c ≠ '}' := by
  have hd : ∀ d < 16, d.digitChar ≠ '}' := by decide
  obtain ⟨d, hlt, rfl⟩ := exists_digitChar_of_mem_toDigits h
  exact hd d hlt

theorem unescape?_code (c : Char) (cs : List Char) :
    unescape? ('\\' :: 'u' :: '{' :: Nat.toDigits 16 c.toNat ++ '}' :: cs) =
      (unescape? cs).map (c :: ·) := by
  have hd : ∀ d ∈ Nat.toDigits 16 c.toNat, decide (d ≠ '}') = true :=
    fun d hd => decide_eq_true (ne_brace_of_mem_toDigits hd)
  have htake : (Nat.toDigits 16 c.toNat ++ '}' :: cs).takeWhile (· ≠ '}') =
      Nat.toDigits 16 c.toNat := by
    rw [List.takeWhile_append_of_pos hd, List.takeWhile_cons_of_neg (by decide), List.append_nil]
  have hdrop : (Nat.toDigits 16 c.toNat ++ '}' :: cs).dropWhile (· ≠ '}') = '}' :: cs := by
    rw [List.dropWhile_append_of_pos hd, List.dropWhile_cons_of_neg (by decide)]
  rw [List.cons_append, List.cons_append, List.cons_append, unescape?, if_pos (by simp), htake,
    hdrop, ofHex?_toDigits, List.drop_succ_cons, List.drop_zero]
  cases unescape? cs <;> rfl

theorem unescape?_letter {c letter : Char} (h : escapeLetter? c = some letter) (cs : List Char) :
    unescape? ('\\' :: letter :: cs) = (unescape? cs).map (c :: ·) := by
  have ho := ofEscapeLetter?_escapeLetter? h
  have hu : letter ≠ 'u' := by
    rintro rfl
    exact Option.some_ne_none c ho.symm
  rw [unescape?]
  · rw [ho]
    cases unescape? cs <;> rfl
  · intro ds he
    exact absurd he hu

theorem unescape?_plain {c : Char} (hq : c ≠ '"') (hb : c ≠ '\\') (cs : List Char) :
    unescape? (c :: cs) = (unescape? cs).map (c :: ·) := by
  rw [unescape?, if_neg (not_or_intro hq hb)]
  · intro ds he
    exact absurd he hb
  · intro d ds he
    exact absurd he hb

theorem unescape?_escapeChar_append (c : Char) (cs : List Char) :
    unescape? (escapeChar c ++ cs) = (unescape? cs).map (c :: ·) := by
  rw [escapeChar]
  split
  · rename_i letter h
    exact unescape?_letter h cs
  · rename_i h
    split
    · rw [List.append_assoc]
      exact unescape?_code c cs
    · apply unescape?_plain <;> rintro rfl <;> exact absurd h (by decide)

theorem unescape?_escape (cs : List Char) : unescape? (escape cs) = some cs := by
  induction cs with
  | nil => rw [escape, List.flatMap_nil, unescape?]
  | cons c cs ih =>
    have hc := unescape?_escapeChar_append c (escape cs)
    rw [ih] at hc
    exact hc

theorem unquote?_quote (s : String) : unquote? (quote s) = some s := by
  simp [unquote?, quote, unescape?_escape]

theorem quote_injective : Function.Injective quote := by
  intro s t h
  have hs := unquote?_quote s
  rw [h, unquote?_quote] at hs
  exact (Option.some.inj hs).symm

def IsAsciiControl (c : Char) : Prop := c.toNat < 0x20 ∨ c.toNat = 0x7f

instance : DecidablePred IsAsciiControl := fun _ => inferInstanceAs (Decidable (_ ∨ _))

/-- A backslash comes last that is not escaped itself, so it escapes what comes next. -/
def escapesNext (cs : List Char) : Bool :=
  cs.foldl (fun pending c => !pending && c == '\\') false

section

variable {c d letter : Char} {cs before after : List Char}

theorem escapeChar_cases (c : Char) :
    (∃ letter, escapeLetter? c = some letter ∧ escapeChar c = ['\\', letter]) ∨
      (escapeChar c = '\\' :: 'u' :: '{' :: Nat.toDigits 16 c.toNat ++ ['}']) ∨
      (escapeLetter? c = none ∧ ¬ Unprintable c ∧ escapeChar c = [c]) := by
  cases hl : escapeLetter? c with
  | some letter => exact .inl ⟨letter, rfl, by rw [escapeChar, hl]⟩
  | none =>
    by_cases hu : Unprintable c
    · exact .inr (.inl (by simp only [escapeChar, hl, hu, if_true]))
    · exact .inr (.inr ⟨rfl, hu, by simp only [escapeChar, hl, hu, if_false]⟩)

theorem isAsciiControl_escapeLetter (h : escapeLetter? c = some letter) :
    ¬ IsAsciiControl letter := by
  unfold escapeLetter? at h
  split at h <;> simp only [Option.some.injEq, reduceCtorEq] at h <;> subst h <;> decide

theorem unprintable_of_isAsciiControl (h : IsAsciiControl c) : Unprintable c := by
  rcases h with h | h
  · exact .inl h
  · have hc : c = '\x7f' := by rw [← Char.ofNat_toNat c, h]
    rw [hc]
    decide

theorem mem_code {n : Nat} (h : d ∈ '\\' :: 'u' :: '{' :: Nat.toDigits 16 n ++ ['}']) :
    d ∈ ['\\', 'u', '{', '}'] ∨ ∃ k < 16, k.digitChar = d := by
  by_cases hd : d ∈ Nat.toDigits 16 n
  · exact .inr (exists_digitChar_of_mem_toDigits hd)
  · exact .inl (by simpa [hd] using h)

theorem not_isAsciiControl_of_mem_escapeChar (h : d ∈ escapeChar c) : ¬ IsAsciiControl d := by
  have hmarks : ∀ x ∈ ['\\', 'u', '{', '}'], ¬ IsAsciiControl x := by simp [IsAsciiControl]
  have hdigits : ∀ k < 16, ¬ IsAsciiControl k.digitChar := by decide
  rcases escapeChar_cases c with ⟨letter, hl, he⟩ | he | ⟨_, hu, he⟩
  · rw [he] at h
    simp only [List.mem_cons, List.not_mem_nil, or_false] at h
    rcases h with rfl | rfl
    · decide
    · exact isAsciiControl_escapeLetter hl
  · rw [he] at h
    rcases mem_code h with hm | ⟨k, hk, rfl⟩
    · exact hmarks d hm
    · exact hdigits k hk
  · rw [he, List.mem_singleton] at h
    exact fun hc => hu (unprintable_of_isAsciiControl (h ▸ hc))

theorem escapesNext_append (h : escapesNext before = false) (cs : List Char) :
    escapesNext (before ++ cs) = escapesNext cs := by
  rw [escapesNext, List.foldl_append]
  exact congrArg (cs.foldl _ ·) h

theorem escapesNext_concat (h : c ≠ '\\') (cs : List Char) : escapesNext (cs ++ [c]) = false := by
  simp [escapesNext, h]

theorem escapesNext_escapeChar (c : Char) : escapesNext (escapeChar c) = false := by
  rcases escapeChar_cases c with ⟨letter, _, he⟩ | he | ⟨hl, _, he⟩
  · rw [he]
    rfl
  · rw [he]
    exact escapesNext_concat (by decide) _
  · rw [he]
    refine escapesNext_concat ?_ []
    rintro rfl
    exact absurd hl (by decide)

theorem escapesNext_escape (cs : List Char) : escapesNext (escape cs) = false := by
  induction cs with
  | nil => rfl
  | cons c cs ih =>
    rw [escape, List.flatMap_cons, escapesNext_append (escapesNext_escapeChar c)]
    exact ih

theorem escapesNext_of_escapeChar (h : escapeChar c = before ++ '"' :: after) :
    escapesNext before = true := by
  have hq : '"' ∈ escapeChar c := by simp [h]
  rcases escapeChar_cases c with ⟨letter, _, he⟩ | he | ⟨hl, _, he⟩
  · rw [he] at h
    cases before with
    | nil => simp at h
    | cons b bs =>
      cases bs with
      | nil => simp [← (List.cons.inj h).1, escapesNext]
      | cons _ _ => simp at h
  · have hmarks : '"' ∉ ['\\', 'u', '{', '}'] := by decide
    have hdigits : ∀ k < 16, k.digitChar ≠ '"' := by decide
    rw [he] at hq
    rcases mem_code hq with hm | ⟨k, hk, hd⟩
    · exact absurd hm hmarks
    · exact absurd hd (hdigits k hk)
  · rw [he, List.mem_singleton] at hq
    subst hq
    exact absurd hl (by decide)

theorem escapesNext_of_escape (h : escape cs = before ++ '"' :: after) :
    escapesNext before = true := by
  induction cs generalizing before with
  | nil => simp [escape] at h
  | cons c cs ih =>
    have hc : escapeChar c ++ escape cs = before ++ '"' :: after := h
    rcases List.append_eq_append_iff.mp hc with ⟨rest, rfl, hr⟩ | ⟨rest, hb, hr⟩
    · rw [escapesNext_append (escapesNext_escapeChar c)]
      exact ih hr
    · cases rest with
      | nil =>
        -- a quote cannot start the rest, where nothing comes before it
        have hn : escapesNext [] = true := ih hr.symm
        exact absurd hn (by decide)
      | cons q rest =>
        obtain ⟨rfl, -⟩ := List.cons.inj hr
        exact escapesNext_of_escapeChar hb

end

/-- The text can be read back from its quoted form, where the first quote that is not escaped ends
it. -/
structure WellQuoted (text quoted : String) : Prop where
  undone : unquote? quoted = some text
  printable : ∀ c ∈ quoted.toList, ¬ IsAsciiControl c
  enclosed : ∃ inside, quoted.toList = '"' :: (inside ++ ['"']) ∧ escapesNext inside = false ∧
    ∀ before after, inside = before ++ '"' :: after → escapesNext before = true

theorem wellQuoted_quote (text : String) : WellQuoted text (quote text) where
  undone := unquote?_quote text
  printable c h := by
    have hq : ¬ IsAsciiControl '"' := by decide
    simp only [quote, String.toList_ofList, List.cons_append, List.mem_cons, List.mem_append,
      List.not_mem_nil, or_false] at h
    rcases h with rfl | h | rfl
    · exact hq
    · obtain ⟨d, _, hd⟩ := List.mem_flatMap.mp h
      exact not_isAsciiControl_of_mem_escapeChar hd
    · exact hq
  enclosed := by
    refine ⟨escape text.toList, by simp [quote], escapesNext_escape _, fun before after h => ?_⟩
    exact escapesNext_of_escape h

end WeightTables
