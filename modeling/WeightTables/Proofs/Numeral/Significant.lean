import WeightTables.Proofs.Weight.Reading
import WeightTables.Proofs.Weight.Shortest
import Mathlib.Data.List.DropRight

/-! Significant digits: those that are left of a numeral without the zeros in front and behind. A
numeral has as many of them as are needed for its value. -/

namespace WeightTables

def trimZeros (ds : List Char) : List Char := (ds.dropWhile (· = '0')).rdropWhile (· = '0')

section

variable {ds : List Char} {c : Char}

theorem exists_trimmed (ds : List Char) :
    ∃ i j, ds = List.replicate i '0' ++ (trimZeros ds ++ List.replicate j '0') := by
  have hl : ∀ c ∈ ds.takeWhile (· = '0'), c = '0' := fun c hc => by
    simpa using List.mem_takeWhile_imp hc
  have hr : ∀ c ∈ (ds.dropWhile (· = '0')).rtakeWhile (· = '0'), c = '0' := fun c hc => by
    simpa using List.mem_rtakeWhile_imp hc
  refine ⟨(ds.takeWhile (· = '0')).length,
    ((ds.dropWhile (· = '0')).rtakeWhile (· = '0')).length, ?_⟩
  rw [← List.eq_replicate_of_mem hl, ← List.eq_replicate_of_mem hr, trimZeros,
    List.rdropWhile_append_rtakeWhile, List.takeWhile_append_dropWhile]

theorem mem_of_mem_trimZeros (h : c ∈ trimZeros ds) : c ∈ ds :=
  (List.dropWhile_suffix _).subset ((List.rdropWhile_prefix _ _).subset h)

theorem head_trimZeros (h : (trimZeros ds).head? = some c) : c ≠ '0' := by
  obtain ⟨rest, hr⟩ := List.rdropWhile_prefix (· = '0') (ds.dropWhile (· = '0'))
  have hd : (ds.dropWhile (· = '0')).head? = some c := by
    rw [← hr, List.head?_append_of_ne_nil _ fun hn => ?_]
    · exact h
    · rw [trimZeros, hn] at h
      exact absurd h (by simp)
  have hn := List.head?_dropWhile_not (· = '0') ds
  rw [hd] at hn
  simpa using hn

theorem last_trimZeros {front : List Char} (h : trimZeros ds = front ++ [c]) : c ≠ '0' := by
  have hne : trimZeros ds ≠ [] := by simp [h]
  have hc : (trimZeros ds).getLast hne = c := by simp [h]
  have hl := List.rdropWhile_last_not (· = '0') (ds.dropWhile (· = '0')) hne
  rw [← hc]
  exact fun he => hl (decide_eq_true he)

theorem digit_le_nine (h : c.isDigit) : c.toNat - '0'.toNat ≤ 9 := by
  have hd : 48 ≤ c.toNat ∧ c.toNat ≤ 57 := Char.isDigit_iff_toNat.mp h
  have hz : '0'.toNat = 48 := rfl
  omega

theorem digit_pos (h : c.isDigit) (hz : c ≠ '0') : 0 < c.toNat - '0'.toNat := by
  have hd : 48 ≤ c.toNat ∧ c.toNat ≤ 57 := Char.isDigit_iff_toNat.mp h
  have hn : c.toNat ≠ 48 := fun he => hz (Char.toNat_inj.mp he)
  have hz : '0'.toNat = 48 := rfl
  omega

theorem ofDigitChars_cons_zero (c : Char) (ds : List Char) :
    Nat.ofDigitChars 10 (c :: ds) 0 =
      10 ^ ds.length * (c.toNat - '0'.toNat) + Nat.ofDigitChars 10 ds 0 := by
  rw [Nat.ofDigitChars_cons, Nat.ofDigitChars_eq_ofDigitChars_zero, Nat.mul_zero, Nat.zero_add]

theorem ofDigitChars_lt (h : ∀ c ∈ ds, c.isDigit) : Nat.ofDigitChars 10 ds 0 < 10 ^ ds.length := by
  induction ds with
  | nil => decide
  | cons c ds ih =>
    have hc := digit_le_nine (h c List.mem_cons_self)
    have ht := ih fun d hd => h d (List.mem_cons_of_mem c hd)
    have hm := Nat.mul_le_mul_left (10 ^ ds.length) hc
    rw [ofDigitChars_cons_zero, List.length_cons, Nat.pow_succ]
    omega

theorem le_ofDigitChars (h : ∀ c ∈ ds, c.isDigit) (hne : ds ≠ [])
    (hz : ∀ c, ds.head? = some c → c ≠ '0') :
    10 ^ (ds.length - 1) ≤ Nat.ofDigitChars 10 ds 0 := by
  cases ds with
  | nil => exact absurd rfl hne
  | cons c ds =>
    have hc := digit_pos (h c List.mem_cons_self) (hz c rfl)
    rw [ofDigitChars_cons_zero, List.length_cons, Nat.add_sub_cancel]
    exact (Nat.le_mul_of_pos_right _ hc).trans (Nat.le_add_right _ _)

theorem ofDigitChars_concat_mod (front : List Char) (h : c.isDigit) (hz : c ≠ '0') :
    Nat.ofDigitChars 10 (front ++ [c]) 0 % 10 ≠ 0 := by
  have h9 := digit_le_nine h
  have h1 := digit_pos h hz
  rw [Nat.ofDigitChars_append, Nat.ofDigitChars_cons, Nat.ofDigitChars_nil]
  omega

end

theorem Decimal.digits_inj {b c : Nat} {e : Int}
    (h : (Decimal.mk b e).value = (Decimal.mk c e).value) : b = c :=
  Nat.cast_injective (mul_right_cancel₀ (ten_zpow_pos e).ne' h)

namespace Numeral

variable {n : Numeral} {k : Nat}

def significant (n : Numeral) : List Char := trimZeros (n.whole ++ n.fraction.getD [])

theorem isDigit_of_mem_significant (h : n.WellFormed) : ∀ c ∈ n.significant, c.isDigit :=
  fun c hc => h.1 c (mem_of_mem_trimZeros hc)

theorem exists_size_eq (n : Numeral) :
    ∃ e, n.size = (Decimal.mk (Nat.ofDigitChars 10 n.significant 0) e).value := by
  obtain ⟨i, j, hd⟩ := exists_trimmed (n.whole ++ n.fraction.getD [])
  have hdigits : n.decimal.digits = Nat.ofDigitChars 10 n.significant 0 * 10 ^ j := by
    rw [decimal, hd, Nat.ofDigitChars_append, Nat.ofDigitChars_append,
      Nat.ofDigitChars_replicate_zero, Nat.ofDigitChars_replicate_zero, Nat.mul_zero, Nat.mul_comm]
    rfl
  refine ⟨n.decimal.exponent + j, ?_⟩
  rw [Decimal.value_shift _ _ j, ← hdigits, Int.add_sub_cancel, ← n.value_decimal]

theorem hasDigits_size (h : n.WellFormed) : HasDigits n.size n.significant.length := by
  obtain ⟨e, he⟩ := n.exists_size_eq
  exact ⟨_, e, ofDigitChars_lt (isDigit_of_mem_significant h), he⟩

/-- The last significant digit is no zero, so no coarser grid has room for the value. -/
theorem le_exponent {e j : Int} {c : Nat} (h : n.WellFormed) (hne : n.significant ≠ [])
    (he : n.size = (Decimal.mk (Nat.ofDigitChars 10 n.significant 0) e).value)
    (hj : n.size = (Decimal.mk c j).value) : j ≤ e := by
  by_contra hlt
  obtain ⟨i, hi⟩ := Int.eq_ofNat_of_zero_le (sub_nonneg.mpr (not_le.mp hlt).le)
  obtain ⟨front, last, hs⟩ := (List.eq_nil_or_concat' n.significant).resolve_left hne
  have hmod := ofDigitChars_concat_mod front
    (isDigit_of_mem_significant h last (by simp [hs])) (last_trimZeros hs)
  have hcj : (Decimal.mk c j).value = (Decimal.mk (c * 10 ^ i) e).value := by
    rw [Decimal.value_shift c j i]
    congr
    omega
  have hv := Decimal.digits_inj (he.symm.trans (hj.trans hcj))
  obtain ⟨k, rfl⟩ : ∃ k, i = k + 1 := Nat.exists_eq_add_one.mpr (by omega)
  rw [← hs, hv, Nat.pow_succ, ← Nat.mul_assoc] at hmod
  exact hmod (Nat.mul_mod_left _ 10)

theorem length_significant_le (h : n.WellFormed) (hk : HasDigits n.size k) :
    n.significant.length ≤ k := by
  by_cases hne : n.significant = []
  · rw [hne]
    exact Nat.zero_le k
  · obtain ⟨e, he⟩ := n.exists_size_eq
    obtain ⟨c, j, hc, hj⟩ := hk
    obtain ⟨i, hi⟩ := Int.eq_ofNat_of_zero_le (sub_nonneg.mpr (le_exponent h hne he hj))
    have hshift : n.size =
        (Decimal.mk (Nat.ofDigitChars 10 n.significant 0 * 10 ^ i) j).value := by
      rw [he, Decimal.value_shift _ e i]
      congr
      omega
    have hv := Decimal.digits_inj (hj.symm.trans hshift)
    have hlow := le_ofDigitChars (isDigit_of_mem_significant h) hne fun _ => head_trimZeros
    have hpow : 10 ^ (n.significant.length - 1) < 10 ^ k := calc
      10 ^ (n.significant.length - 1) ≤ Nat.ofDigitChars 10 n.significant 0 := hlow
      _ ≤ Nat.ofDigitChars 10 n.significant 0 * 10 ^ i :=
        Nat.le_mul_of_pos_right _ (Nat.pow_pos (by decide))
      _ = c := hv.symm
      _ < 10 ^ k := hc
    have hlt := (Nat.pow_lt_pow_iff_right (by decide)).mp hpow
    omega

end Numeral

end WeightTables
