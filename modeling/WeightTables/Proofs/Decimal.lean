import WeightTables.Proofs.Numeral
import WeightTables.Proofs.Weight.Nearest

/-! The two layouts of a decimal are written numerals, and each has the value of the decimal. -/

namespace WeightTables

theorem isDigit_of_mem_leftpad {places : Nat} {ds : List Char} (h : ∀ c ∈ ds, c.isDigit) {c : Char}
    (hc : c ∈ ds.leftpad places '0') : c.isDigit := by
  simp only [List.leftpad, List.mem_append, List.mem_replicate] at hc
  rcases hc with ⟨_, rfl⟩ | hc
  · decide
  · exact h c hc

theorem ofDigitChars_leftpad (places : Nat) (ds : List Char) :
    Nat.ofDigitChars 10 (ds.leftpad places '0') 0 = Nat.ofDigitChars 10 ds 0 := by
  rw [List.leftpad, Nat.ofDigitChars_append, Nat.ofDigitChars_replicate_zero, Nat.mul_zero]

theorem length_digits_eq_iff {n k : Nat} (hn : 0 < n) :
    (Nat.toDigits 10 n).length = k + 1 ↔ 10 ^ k ≤ n ∧ n < 10 ^ (k + 1) := by
  have hupper := @Nat.length_toDigits_le_iff 10 n (k + 1) (by decide) k.succ_pos
  cases k with
  | zero =>
    have hpos := @Nat.length_toDigits_pos 10 n
    omega
  | succ k =>
    have hlower := @Nat.length_toDigits_le_iff 10 n (k + 1) (by decide) k.succ_pos
    omega

def fixedNumeral (n places : Nat) : Numeral where
  sign := .unsigned
  whole := Nat.toDigits 10 (n / tenPow places)
  fraction := some ((Nat.toDigits 10 (n % tenPow places)).leftpad places '0')
  scale := none

theorem toList_fixedNumeral (n places : Nat) :
    (fixedNumeral n places).toList = fixedPoint n places := by
  simp [Numeral.toList, fixedNumeral, fixedPoint, Sign.toList]

theorem wellFormed_fixedNumeral (n places : Nat) : (fixedNumeral n places).WellFormed := by
  refine ⟨fun c hc => ?_, ?_, by simp [fixedNumeral]⟩
  · simp only [fixedNumeral, Option.getD_some, List.mem_append] at hc
    rcases hc with hc | hc
    · exact isDigit_of_mem_digits hc
    · exact isDigit_of_mem_leftpad (fun _ => isDigit_of_mem_digits) hc
  · simp [fixedNumeral, Nat.toDigits_ne_nil]

theorem length_fraction_fixedNumeral {places : Nat} (n : Nat) (h : 0 < places) :
    ((Nat.toDigits 10 (n % tenPow places)).leftpad places '0').length = places := by
  have hr : n % tenPow places < 10 ^ places := Nat.mod_lt _ (Nat.pow_pos (by decide))
  have hl := (Nat.length_toDigits_le_iff (by decide : 1 < 10) h).mpr hr
  rw [List.length_leftpad]
  omega

theorem decimal_fixedNumeral {places : Nat} (n : Nat) (h : 0 < places) :
    (fixedNumeral n places).decimal = ⟨n, -places⟩ := by
  have hl := length_fraction_fixedNumeral n h
  have hd := Nat.div_add_mod n (tenPow places)
  simp only [Numeral.decimal, fixedNumeral, Option.getD_some, Option.map_none, Option.getD_none,
    Nat.ofDigitChars_append, Nat.ofDigitChars_ten_toDigits, hl, Int.zero_sub, Decimal.mk.injEq,
    and_true]
  rw [Nat.ofDigitChars_eq_ofDigitChars_zero, hl, ofDigitChars_leftpad,
    Nat.ofDigitChars_ten_toDigits]
  exact hd

namespace Decimal

def positionalNumeral (d : Decimal) : Numeral :=
  if d.exponent < 0 then fixedNumeral d.digits (-d.exponent).toNat
  else fixedNumeral (d.digits * tenPow (d.exponent.toNat + 1)) 1

theorem toList_positionalNumeral (d : Decimal) : d.positionalNumeral.toList = d.positional := by
  rw [positionalNumeral, positional]
  split <;> exact toList_fixedNumeral _ _

theorem wellFormed_positionalNumeral (d : Decimal) : d.positionalNumeral.WellFormed := by
  rw [positionalNumeral]
  split <;> exact wellFormed_fixedNumeral _ _

theorem sign_positionalNumeral (d : Decimal) : d.positionalNumeral.sign = .unsigned := by
  rw [positionalNumeral]
  split <;> rfl

theorem value_positionalNumeral (d : Decimal) : d.positionalNumeral.decimal.value = d.value := by
  rw [positionalNumeral]
  split
  · rename_i h
    rw [decimal_fixedNumeral _ (by omega)]
    congr
    omega
  · rename_i h
    obtain ⟨n, hn⟩ := Int.eq_ofNat_of_zero_le (Int.not_lt.mp h)
    rw [decimal_fixedNumeral _ Nat.one_pos, value, value, hn, tenPow_eq, zpow_natCast]
    push_cast
    rw [Int.toNat_natCast, pow_succ, zpow_neg, zpow_one]
    ring

def exponentScale (e : Int) : Scale :=
  ⟨'e', if e < 0 then .minus else .unsigned, Nat.toDigits 10 e.natAbs⟩

theorem toList_exponentScale (e : Int) : (exponentScale e).toList = 'e' :: exponentText e := by
  rw [exponentScale, exponentText, Scale.toList]
  split <;> rfl

theorem wellFormed_exponentScale (e : Int) : (exponentScale e).WellFormed :=
  ⟨.inl rfl, Nat.toDigits_ne_nil, fun _ => isDigit_of_mem_digits⟩

theorem value_exponentScale (e : Int) : (exponentScale e).value = e := by
  rw [exponentScale, Scale.value]
  simp only [Nat.ofDigitChars_ten_toDigits]
  split
  · rw [if_pos rfl]; omega
  · rw [if_neg (by decide)]; omega

def scientificNumeral (d : Decimal) : Numeral :=
  let ds := Nat.toDigits 10 d.digits
  { sign := .unsigned
    whole := ds.take 1
    fraction := if ds.length = 1 then none else some (ds.drop 1)
    scale := some (exponentScale (d.exponent + (ds.length - 1 : Nat))) }

theorem toList_scientificNumeral (d : Decimal) : d.scientificNumeral.toList = d.scientific := by
  simp only [Numeral.toList, scientificNumeral, scientific, Option.map_some, Option.getD_some,
    toList_exponentScale, Sign.toList, List.nil_append]
  split <;> rfl

theorem digits_scientificNumeral (d : Decimal) :
    d.scientificNumeral.whole ++ d.scientificNumeral.fraction.getD [] =
      Nat.toDigits 10 d.digits := by
  rw [scientificNumeral]
  dsimp only
  split
  · rename_i h
    rw [Option.getD_none, List.append_nil, List.take_of_length_le (Nat.le_of_eq h)]
  · rw [Option.getD_some, List.take_append_drop]

theorem length_fraction_scientificNumeral (d : Decimal) :
    (d.scientificNumeral.fraction.getD []).length = (Nat.toDigits 10 d.digits).length - 1 := by
  rw [scientificNumeral]
  dsimp only
  split
  · rename_i h
    rw [h]; rfl
  · rw [Option.getD_some, List.length_drop]

theorem wellFormed_scientificNumeral (d : Decimal) : d.scientificNumeral.WellFormed := by
  refine ⟨fun c hc => ?_, ?_, ?_⟩
  · rw [digits_scientificNumeral] at hc
    exact isDigit_of_mem_digits hc
  · rw [digits_scientificNumeral]
    exact Nat.toDigits_ne_nil
  · intro s hs
    exact Option.some.inj hs ▸ wellFormed_exponentScale _

theorem decimal_scientificNumeral (d : Decimal) : d.scientificNumeral.decimal = d := by
  have hs : d.scientificNumeral.scale =
      some (exponentScale (d.exponent + ((Nat.toDigits 10 d.digits).length - 1 : Nat))) := rfl
  rw [Numeral.decimal, digits_scientificNumeral, length_fraction_scientificNumeral, hs,
    Nat.ofDigitChars_ten_toDigits, Option.map_some, Option.getD_some, value_exponentScale,
    Int.add_sub_cancel]

end Decimal

end WeightTables
