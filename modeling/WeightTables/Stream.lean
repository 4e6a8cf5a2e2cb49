import WeightTables.IoError
import WeightTables.Weight.Bytes

/-! Streams: bytes that arrive in pieces, with failures between them. An interruption only delays,
any other failure ends the reading and wins over the bytes that came before, and an empty piece is
the end of the stream. -/

namespace WeightTables

inductive Arrival where
  | piece (bytes : Bytes)
  | failure (error : IoError)
  deriving DecidableEq

abbrev Stream := List Arrival

/-- All bytes up to the end of the stream, or the failure that stops the reading. -/
def Stream.content : Stream → Except IoError Bytes
  | [] => .ok []
  | .piece [] :: _ => .ok []
  | .piece bytes :: rest => (content rest).map (bytes ++ ·)
  | .failure e :: rest => if e.kind = .interrupted then content rest else .error e

end WeightTables
