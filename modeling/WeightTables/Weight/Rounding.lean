import WeightTables.Decimal
import WeightTables.Rounding
import WeightTables.Weight.Basic

/-! The weight nearest to an exact value. Rounding happens once, on the exact quotient, so a half
goes to the even significand over the normal and the subnormal range alike. -/

namespace WeightTables

namespace Weight

/-- The magnitude nearest to `num / den` units, which is `infinity` or more on overflow. -/
def nearestMagnitude (num den : Nat) : Nat :=
  let places := (num / den).log2 - 23
  places * binade + roundHalfEven num (den <<< places)

end Weight

namespace Decimal

/-- The magnitude nearest to a decimal. Exponents that settle the answer by themselves are answered
first, so that no power of ten is computed from a boundless exponent. -/
def magnitude (d : Decimal) : Nat :=
  if d.digits = 0 then 0
  else if 39 ≤ d.exponent then Weight.infinity
  else if d.exponent + d.digits.log2 + 47 ≤ 0 then 0
  else
    Weight.nearestMagnitude (d.digits * tenPow d.exponent.toNat * Weight.unitsPerOne)
      (tenPow (-d.exponent).toNat)

end Decimal

/-- The finite weight nearest to a signed decimal, unless the decimal is too large for one. A value
that rounds to zero keeps its sign. -/
def Weight.ofDecimal? (negative : Bool) (d : Decimal) : Option Weight :=
  if d.magnitude < infinity then some (ofParts negative d.magnitude) else none

end WeightTables
