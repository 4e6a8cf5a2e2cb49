import WeightTables.Decimal

/-! Written decimal numerals: an optional sign, digits with an optional point before, inside or
after them, and an optional exponent. Digits are the ten ASCII digits. `Numeral.toList` writes a
numeral down and `Numeral.parse?` reads one, which has to be the whole text. -/

namespace WeightTables

inductive Sign where
  | unsigned
  | plus
  | minus
  deriving DecidableEq

namespace Sign

def toList : Sign → List Char
  | unsigned => []
  | plus => ['+']
  | minus => ['-']

def split : List Char → Sign × List Char
  | '+' :: cs => (plus, cs)
  | '-' :: cs => (minus, cs)
  | cs => (unsigned, cs)

end Sign

structure Scale where
  mark : Char
  sign : Sign
  digits : List Char
  deriving DecidableEq

namespace Scale

def WellFormed (s : Scale) : Prop :=
  (s.mark = 'e' ∨ s.mark = 'E') ∧ s.digits ≠ [] ∧ ∀ c ∈ s.digits, c.isDigit

instance (s : Scale) : Decidable s.WellFormed :=
  haveI : Decidable (∀ c ∈ s.digits, c.isDigit) := List.decidableBAll _ _
  inferInstanceAs (Decidable (_ ∧ _ ∧ _))

def toList (s : Scale) : List Char := s.mark :: (s.sign.toList ++ s.digits)

def value (s : Scale) : Int :=
  let n := Nat.ofDigitChars 10 s.digits 0
  if s.sign = .minus then -(n : Int) else n

def parse? : List Char → Option Scale
  | [] => none
  | c :: cs =>
    let scale : Scale := ⟨c, (Sign.split cs).1, (Sign.split cs).2⟩
    if scale.WellFormed then some scale else none

end Scale

structure Numeral where
  sign : Sign
  whole : List Char
  /-- The digits after the point, if there is a point. -/
  fraction : Option (List Char)
  scale : Option Scale
  deriving DecidableEq

namespace Numeral

/-- All digits are digits, and there is one before or after the point. -/
def WellFormed (n : Numeral) : Prop :=
  (∀ c ∈ n.whole ++ n.fraction.getD [], c.isDigit) ∧ n.whole ++ n.fraction.getD [] ≠ [] ∧
    ∀ s ∈ n.scale, s.WellFormed

def toList (n : Numeral) : List Char :=
  n.sign.toList ++ n.whole ++ (n.fraction.map ('.' :: ·)).getD [] ++
    (n.scale.map Scale.toList).getD []

/-- The numeral as a decimal, its sign left out. -/
def decimal (n : Numeral) : Decimal where
  digits := Nat.ofDigitChars 10 (n.whole ++ n.fraction.getD []) 0
  exponent := (n.scale.map Scale.value).getD 0 - (n.fraction.getD []).length

def isNegative (n : Numeral) : Bool := decide (n.sign = .minus)

def splitFraction : List Char → Option (List Char) × List Char
  | '.' :: cs => (some (cs.takeWhile Char.isDigit), cs.dropWhile Char.isDigit)
  | cs => (none, cs)

def parse? (cs : List Char) : Option Numeral :=
  let (sign, cs) := Sign.split cs
  let (fraction, rest) := splitFraction (cs.dropWhile Char.isDigit)
  let n : Numeral := ⟨sign, cs.takeWhile Char.isDigit, fraction, Scale.parse? rest⟩
  if n.whole ++ n.fraction.getD [] ≠ [] ∧ (rest = [] ∨ n.scale.isSome) then some n else none

end Numeral

end WeightTables
