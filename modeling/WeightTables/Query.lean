import WeightTables.Table

/-! Questions about a table and their answers. -/

namespace WeightTables

inductive Query where
  | name
  | length
  | isEmpty
  | values
  | summary
  | bytes
  | dump
  /-- The value at a position, if there is one. -/
  | get (position : Nat)
  /-- The value at a position that has to be there. -/
  | index (position : Nat)
  /-- Some of the values in order, after others have been passed over. -/
  | iterate (skip take : Nat)
  deriving DecidableEq

inductive QueryAnswer where
  | text (text : String)
  | size (size : Nat)
  | truth (holds : Bool)
  | weights (values : List Weight)
  | summary (summary : Summary)
  | bytes (bytes : Bytes)
  | optional (value : Option Weight)
  | required (value : Except RangeError Weight)

def Table.answer (t : Table) : Query → QueryAnswer
  | .name => .text t.name
  | .length => .size t.length
  | .isEmpty => .truth t.isEmpty
  | .values => .weights t.values
  | .summary => .summary t.summary
  | .bytes => .bytes t.bytes
  | .dump => .text t.dump
  | .get i => .optional (t.get? i)
  | .index i => .required (t.get i)
  | .iterate skip take => .weights ((t.values.drop skip).take take)

end WeightTables
