import WeightTables.Weight.Rounding

/-! The shortest decimal that reads back as a given magnitude. The grids of decimals are tried from
coarse to fine. On each one only the two neighbours of the exact value can be the nearest decimal,
so only they are read back. -/

namespace WeightTables.Weight

/-- The least exponent whose power of ten is above the exact value of a magnitude. -/
def leadingExponent (m : Nat) : Int :=
  (Nat.toDigits 10 (units m * tenPow 45 / unitsPerOne)).length - 45

/-- The decimal on the grid `10 ^ e` nearest to the exact value of a magnitude among those that read
back as that magnitude. Of two equally near the upper one is taken. -/
def onGrid? (m : Nat) (e : Int) : Option Decimal :=
  let num := units m * tenPow (-e).toNat
  let den := unitsPerOne * tenPow e.toNat
  let below : Decimal := ⟨num / den, e⟩
  let above : Decimal := ⟨num / den + 1, e⟩
  if below.magnitude = m ∧ (above.magnitude ≠ m ∨ 2 * (num % den) < den) then some below
  else if above.magnitude = m then some above
  else none

/-- The shortest decimal that reads back as a finite magnitude. Nine digits always suffice; the
exact value stands behind them. -/
def shortest (m : Nat) : Decimal :=
  if m = 0 then ⟨0, 0⟩
  else
    ((List.range 10).findSome? fun n => onGrid? m (leadingExponent m - (n : Nat))).getD
      ⟨units m * (tenPow 149 / unitsPerOne), -149⟩

end WeightTables.Weight
