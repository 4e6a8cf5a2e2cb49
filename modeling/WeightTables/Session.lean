import WeightTables.Export.ArrayText
import WeightTables.Loading
import WeightTables.Query
import WeightTables.Registry

/-! Sessions: a text, a row of bytes and a row of weights that commands turn into one another. A
command that fails changes nothing. -/

namespace WeightTables

structure Session where
  text : String
  bytes : Bytes
  values : List Weight
  deriving DecidableEq

inductive Command where
  | setText (text : String)
  | appendText (text : String)
  | textToBytes
  | dropBrackets
  | setBytes (bytes : Bytes)
  | appendBytes (bytes : Bytes)
  | setValues (values : List Weight)
  | lookup (name : String)
  | tokens
  | loadText (count : Nat)
  | loadStream (count : Nat)
  | loadBytes (count : Nat)
  | valuesToBytes
  | arrayText (count : Nat)
  | query (query : Query)
  deriving DecidableEq

inductive Answer where
  | size (size : Nat)
  | found (values : Option (List Weight))
  | tokens (tokens : List String)
  | loaded (result : Except LoadError (List Weight))
  | bytes (bytes : Bytes)
  | arrayText (result : Except ArrayError String)
  | query (answer : QueryAnswer)

namespace Session

def empty : Session := ⟨"", [], []⟩

def putText (s : Session) (text : String) : Answer × Session :=
  (.size text.utf8ByteSize, { s with text })

def putBytes (s : Session) (bytes : Bytes) : Answer × Session :=
  (.size bytes.length, { s with bytes })

def putLoaded (s : Session) (result : Except LoadError (List Weight)) : Answer × Session :=
  (.loaded result, { s with values := result.toOption.getD s.values })

def step (mode : BuildMode) (s : Session) : Command → Answer × Session
  | .setText text => s.putText text
  | .appendText text => s.putText (s.text ++ text)
  | .textToBytes => s.putBytes (bytesOfText s.text)
  | .dropBrackets => s.putText (withoutBrackets s.text)
  | .setBytes bytes => s.putBytes bytes
  | .appendBytes bytes => s.putBytes (s.bytes ++ bytes)
  | .setValues values => (.size values.length, { s with values })
  | .lookup name =>
    let found := (lookup? mode name).map Table.values
    (.found found, { s with values := found.getD s.values })
  | .tokens => (.tokens (WeightTables.tokens s.text), s)
  | .loadText count => s.putLoaded (WeightTables.loadText count s.text)
  | .loadStream count => s.putLoaded (WeightTables.loadStream count [.piece s.bytes]).result
  | .loadBytes count => s.putLoaded (WeightTables.loadBytes count s.bytes)
  | .valuesToBytes =>
    let bytes := bytesOfWeights s.values
    (.bytes bytes, { s with bytes })
  | .arrayText count =>
    let result := WeightTables.arrayText s.text count
    (.arrayText result, { s with text := result.toOption.getD s.text })
  | .query query => (.query ((Table.mk "t" s.values).answer query), s)

def run (mode : BuildMode) (s : Session) : List Command → List Answer
  | [] => []
  | command :: rest =>
    let (answer, s) := s.step mode command
    answer :: run mode s rest

end Session

end WeightTables
