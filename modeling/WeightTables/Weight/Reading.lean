import WeightTables.Numeral
import WeightTables.Weight.Rounding

/-! Weights from written numerals. Only finite weights can be read: a spelled-out infinity is no
numeral, and a numeral that rounds to one is refused. -/

namespace WeightTables.Weight

def ofNumeral? (n : Numeral) : Option Weight := ofDecimal? n.isNegative n.decimal

/-- Reads a token, which has to be a numeral as a whole. -/
def ofText? (token : String) : Option Weight := (Numeral.parse? token.toList).bind ofNumeral?

end WeightTables.Weight
