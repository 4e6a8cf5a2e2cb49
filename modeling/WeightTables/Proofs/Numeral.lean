import WeightTables.Numeral
import Mathlib.Data.List.Basic

/-! Reading undoes writing for numerals, and a written numeral has no characters but digits, signs,
a point and an exponent mark. -/

namespace WeightTables

section

variable {ds rest : List Char}

theorem takeWhile_isDigit_append (hd : ∀ c ∈ ds, c.isDigit)
    (hr : ∀ c, rest.head? = some c → c.isDigit = false) :
    (ds ++ rest).takeWhile Char.isDigit = ds := by
  rw [List.takeWhile_append_of_pos hd]
  cases rest with
  | nil => simp
  | cons c cs => simp [hr c rfl]

theorem dropWhile_isDigit_append (hd : ∀ c ∈ ds, c.isDigit)
    (hr : ∀ c, rest.head? = some c → c.isDigit = false) :
    (ds ++ rest).dropWhile Char.isDigit = rest := by
  rw [List.dropWhile_append_of_pos hd]
  cases rest with
  | nil => rfl
  | cons c cs => simp [hr c rfl]

end

theorem isDigit_of_mem_digits {n : Nat} {c : Char} (h : c ∈ Nat.toDigits 10 n) : c.isDigit :=
  Nat.isDigit_of_mem_toDigits (by decide) (by decide) h

theorem digits_injective {m n : Nat} (h : Nat.toDigits 10 m = Nat.toDigits 10 n) : m = n := by
  have hv := congrArg (Nat.ofDigitChars 10 · 0) h
  simpa using hv

theorem digits_append_inj {m n : Nat} {a b : List Char}
    (ha : ∀ c, a.head? = some c → c.isDigit = false)
    (hb : ∀ c, b.head? = some c → c.isDigit = false)
    (h : Nat.toDigits 10 m ++ a = Nat.toDigits 10 n ++ b) : m = n ∧ a = b := by
  have hd : Nat.toDigits 10 m = Nat.toDigits 10 n := by
    rw [← takeWhile_isDigit_append (fun _ => isDigit_of_mem_digits) ha, h,
      takeWhile_isDigit_append (fun _ => isDigit_of_mem_digits) hb]
  rw [hd] at h
  exact ⟨digits_injective hd, List.append_cancel_left h⟩

/-- A number between two fixed stretches of prose can be told from what is around it. -/
theorem digits_between_inj {m n : Nat} {front between a b : List Char}
    (hc : ∃ c ∈ between.head?, c.isDigit = false)
    (h : front ++ (Nat.toDigits 10 m ++ (between ++ a)) =
      front ++ (Nat.toDigits 10 n ++ (between ++ b))) : m = n ∧ a = b := by
  obtain ⟨c, hh, hd⟩ := hc
  have happ : ∀ rest d, (between ++ rest).head? = some d → d.isDigit = false := by
    intro rest d he
    rw [List.head?_append, Option.mem_def.mp hh] at he
    exact Option.some.inj he ▸ hd
  obtain ⟨hm, hr⟩ := digits_append_inj (happ a) (happ b) (List.append_cancel_left h)
  exact ⟨hm, List.append_cancel_left hr⟩

theorem Sign.split_toList_append (s : Sign) {cs : List Char}
    (h : ∀ c, cs.head? = some c → c ≠ '+' ∧ c ≠ '-') : Sign.split (s.toList ++ cs) = (s, cs) := by
  cases s with
  | plus => rfl
  | minus => rfl
  | unsigned =>
    cases cs with
    | nil => rfl
    | cons c cs =>
      have hc := h c rfl
      simp only [Sign.toList, Sign.split]
      split <;> simp_all

theorem ne_sign_of_isDigit {c : Char} (h : c.isDigit) : c ≠ '+' ∧ c ≠ '-' := by
  constructor <;> rintro rfl <;> exact absurd h (by decide)

namespace Scale

theorem WellFormed.head_digits {s : Scale} (h : s.WellFormed) {c : Char}
    (hc : s.digits.head? = some c) : c ≠ '+' ∧ c ≠ '-' :=
  ne_sign_of_isDigit (h.2.2 c (List.mem_of_mem_head? hc))

theorem parse?_toList {s : Scale} (h : s.WellFormed) : Scale.parse? s.toList = some s := by
  have hs := Sign.split_toList_append s.sign (fun _ => h.head_digits)
  simp only [toList, parse?, hs]
  exact if_pos h

end Scale

namespace Numeral

variable {n : Numeral}

def scaleText (n : Numeral) : List Char := (n.scale.map Scale.toList).getD []

def tail (n : Numeral) : List Char := (n.fraction.map ('.' :: ·)).getD [] ++ n.scaleText

theorem toList_eq (n : Numeral) : n.toList = n.sign.toList ++ (n.whole ++ n.tail) := by
  simp [toList, tail, scaleText]

theorem WellFormed.head_scale (h : n.WellFormed) {c : Char}
    (hc : n.scaleText.head? = some c) : c = 'e' ∨ c = 'E' := by
  cases hs : n.scale with
  | none => simp [scaleText, hs] at hc
  | some s =>
    have hm := (h.2.2 s hs).1
    simp only [scaleText, hs, Option.map_some, Option.getD_some, Scale.toList, List.head?_cons,
      Option.some.injEq] at hc
    exact hc ▸ hm

theorem WellFormed.head_tail (h : n.WellFormed) {c : Char} (hc : n.tail.head? = some c) :
    c = '.' ∨ c = 'e' ∨ c = 'E' := by
  unfold tail at hc
  cases hf : n.fraction with
  | none =>
    simp only [hf, Option.map_none, Option.getD_none, List.nil_append] at hc
    exact .inr (h.head_scale hc)
  | some ds =>
    simp only [hf, Option.map_some, Option.getD_some, List.cons_append, List.head?_cons,
      Option.some.injEq] at hc
    exact .inl hc.symm

theorem WellFormed.head_body (h : n.WellFormed) {c : Char}
    (hc : (n.whole ++ n.tail).head? = some c) : c ≠ '+' ∧ c ≠ '-' := by
  cases hw : n.whole with
  | nil =>
    rw [hw, List.nil_append] at hc
    rcases h.head_tail hc with rfl | rfl | rfl <;> decide
  | cons d ds =>
    rw [hw, List.cons_append, List.head?_cons, Option.some.injEq] at hc
    have hd : d ∈ n.whole ++ n.fraction.getD [] := by simp [hw]
    exact hc ▸ ne_sign_of_isDigit (h.1 d hd)

theorem splitFraction_tail (h : n.WellFormed) :
    splitFraction n.tail = (n.fraction, n.scaleText) := by
  have hs : ∀ c, n.scaleText.head? = some c → c.isDigit = false := by
    intro c hc
    rcases h.head_scale hc with rfl | rfl <;> decide
  have hp : n.scaleText.head? ≠ some '.' := by
    intro hc
    rcases h.head_scale hc with he | he <;> exact absurd he (by decide)
  rw [tail]
  generalize n.scaleText = rest at hs hp ⊢
  cases hf : n.fraction with
  | none =>
    cases rest with
    | nil => rfl
    | cons c cs =>
      simp only [Option.map_none, Option.getD_none, List.nil_append, splitFraction]
      split
      · rename_i heq
        simp_all
      · rfl
  | some ds =>
    have hd : ∀ c ∈ ds, c.isDigit := fun c hc => h.1 c (by simp [hf, hc])
    simp only [Option.map_some, Option.getD_some, List.cons_append, splitFraction,
      takeWhile_isDigit_append hd hs, dropWhile_isDigit_append hd hs]

theorem parse?_scaleText (h : n.WellFormed) : Scale.parse? n.scaleText = n.scale := by
  rw [scaleText]
  cases hs : n.scale with
  | none => rfl
  | some s => exact Scale.parse?_toList (h.2.2 s hs)

theorem scaleText_eq_nil_or (n : Numeral) : n.scaleText = [] ∨ n.scale.isSome := by
  rw [scaleText]
  cases n.scale with
  | none => exact .inl rfl
  | some s => exact .inr rfl

theorem parse?_toList (h : n.WellFormed) : parse? n.toList = some n := by
  have hw : ∀ c ∈ n.whole, c.isDigit := fun c hc => h.1 c (List.mem_append_left _ hc)
  have ht : ∀ c, n.tail.head? = some c → c.isDigit = false := by
    intro c hc
    rcases h.head_tail hc with rfl | rfl | rfl <;> decide
  simp only [parse?, toList_eq, Sign.split_toList_append n.sign (fun _ => h.head_body),
    takeWhile_isDigit_append hw ht, dropWhile_isDigit_append hw ht, splitFraction_tail h,
    parse?_scaleText h]
  exact if_pos ⟨h.2.1, n.scaleText_eq_nil_or⟩

def signed (n : Numeral) (negative : Bool) : Numeral :=
  { n with sign := if negative then .minus else n.sign }

theorem wellFormed_signed {negative : Bool} (h : n.WellFormed) : (n.signed negative).WellFormed := h

theorem toList_signed {negative : Bool} (h : n.sign = .unsigned) :
    (n.signed negative).toList = (if negative then ['-'] else []) ++ n.toList := by
  cases negative <;> simp [signed, toList, h, Sign.toList]

theorem isNegative_signed {negative : Bool} (h : n.sign = .unsigned) :
    (n.signed negative).isNegative = negative := by
  cases negative <;> simp [signed, isNegative, h]

def IsNumeralChar (c : Char) : Prop := c.isDigit ∨ c ∈ ['+', '-', '.', 'e', 'E']

instance : DecidablePred IsNumeralChar := fun _ => inferInstanceAs (Decidable (_ ∨ _))

theorem isNumeralChar_of_mem_sign {s : Sign} {c : Char} (h : c ∈ s.toList) : IsNumeralChar c := by
  cases s <;> simp_all [Sign.toList, IsNumeralChar]

theorem isNumeralChar_of_mem_scale {s : Scale} (hs : s.WellFormed) {c : Char} (h : c ∈ s.toList) :
    IsNumeralChar c := by
  simp only [Scale.toList, List.mem_cons, List.mem_append] at h
  rcases h with rfl | h | h
  · rcases hs.1 with he | he <;> simp [IsNumeralChar, he]
  · exact isNumeralChar_of_mem_sign h
  · exact .inl (hs.2.2 c h)

theorem isNumeralChar_of_mem_toList (h : n.WellFormed) {c : Char} (hc : c ∈ n.toList) :
    IsNumeralChar c := by
  simp only [toList, List.mem_append] at hc
  rcases hc with ((hc | hc) | hc) | hc
  · exact isNumeralChar_of_mem_sign hc
  · exact .inl (h.1 c (List.mem_append_left _ hc))
  · cases hf : n.fraction with
    | none => simp [hf] at hc
    | some ds =>
      simp only [hf, Option.map_some, Option.getD_some, List.mem_cons] at hc
      rcases hc with rfl | hc
      · simp [IsNumeralChar]
      · exact .inl (h.1 c (by simp [hf, hc]))
  · cases hs : n.scale with
    | none => simp [hs] at hc
    | some s =>
      simp only [hs, Option.map_some, Option.getD_some] at hc
      exact isNumeralChar_of_mem_scale (h.2.2 s hs) hc

theorem toList_ne_nil (h : n.WellFormed) : n.toList ≠ [] := by
  intro he
  have hb := h.2.1
  simp only [toList, List.append_eq_nil_iff] at he
  obtain ⟨⟨⟨_, hw⟩, hf⟩, _⟩ := he
  cases hc : n.fraction with
  | none => simp [hw, hc] at hb
  | some ds => simp [hc] at hf

end Numeral

end WeightTables
