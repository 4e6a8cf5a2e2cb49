import WeightTables.Summary
import WeightTables.Text.Quoted
import WeightTables.Weight.Bytes

/-! Named tables of weights. -/

namespace WeightTables

inductive RangeError where
  | index (length position : Nat)
  | sliceStart (length start : Nat)
  | sliceEnd (length stop : Nat)
  | sliceOrder (start stop : Nat)
  deriving DecidableEq

def RangeError.message : RangeError → String
  | index length position =>
    s!"index out of bounds: the len is {length} but the index is {position}"
  | sliceStart length start =>
    s!"range start index {start} out of range for slice of length {length}"
  | sliceEnd length stop => s!"range end index {stop} out of range for slice of length {length}"
  | sliceOrder start stop => s!"slice index starts at {start} but ends at {stop}"

structure Table where
  name : String
  values : List Weight
  deriving DecidableEq

namespace Table

def length (t : Table) : Nat := t.values.length

def isEmpty (t : Table) : Bool := t.values.isEmpty

def get? (t : Table) (i : Nat) : Option Weight := t.values[i]?

def get (t : Table) (i : Nat) : Except RangeError Weight :=
  match t.get? i with
  | some w => .ok w
  | none => .error (.index t.length i)

def summary (t : Table) : Summary := .of t.values

def bytes (t : Table) : Bytes := bytesOfWeights t.values

def dump (t : Table) : String :=
  s!"WeightTable \x7b name: {quote t.name}, values: [" ++
    ", ".intercalate (t.values.map Weight.literal) ++ "] \x7d"

/-- The values from one index up to another, which is left out. -/
def slice (t : Table) (start stop : Nat) : Except RangeError (List Weight) :=
  if t.length < start then .error (.sliceStart t.length start)
  else if t.length < stop then .error (.sliceEnd t.length stop)
  else if stop < start then .error (.sliceOrder start stop)
  else .ok ((t.values.take stop).drop start)

end Table

end WeightTables
