/-! Decimals `digits * 10 ^ exponent` and the two ways to lay them out. -/

namespace WeightTables

structure Decimal where
  digits : Nat
  exponent : Int
  deriving DecidableEq

def tenPow (n : Nat) : Nat := Nat.pow 10 n

/-- The text of `n / tenPow places`, with that many digits after the point. -/
def fixedPoint (n places : Nat) : List Char :=
  Nat.toDigits 10 (n / tenPow places) ++
    '.' :: (Nat.toDigits 10 (n % tenPow places)).leftpad places '0'

namespace Decimal

def value (d : Decimal) : Rat := d.digits * (10 : Rat) ^ d.exponent

/-- Without an exponent, and with at least one digit after the point. -/
def positional (d : Decimal) : List Char :=
  if d.exponent < 0 then fixedPoint d.digits (-d.exponent).toNat
  else fixedPoint (d.digits * tenPow (d.exponent.toNat + 1)) 1

def exponentText (e : Int) : List Char :=
  if e < 0 then '-' :: Nat.toDigits 10 e.natAbs else Nat.toDigits 10 e.natAbs

/-- One digit before the point, which is left out where no digit follows it. -/
def scientific (d : Decimal) : List Char :=
  let ds := Nat.toDigits 10 d.digits
  ds.take 1 ++ (if ds.length = 1 then [] else '.' :: ds.drop 1) ++
    'e' :: exponentText (d.exponent + (ds.length - 1 : Nat))

end Decimal

end WeightTables
