import WeightTables.Text.Unprintable

/-! Quoted text. A quote, a backslash and four common controls are written as a backslash and a
letter, any other unprintable character as its code point in hexadecimal digits, and all else as
itself. Quoting loses nothing: `unquote?` gives the text back. -/

namespace WeightTables

def escapeLetter? : Char → Option Char
  | '"' => some '"'
  | '\\' => some '\\'
  | '\x00' => some '0'
  | '\t' => some 't'
  | '\r' => some 'r'
  | '\n' => some 'n'
  | _ => none

def ofEscapeLetter? : Char → Option Char
  | '"' => some '"'
  | '\\' => some '\\'
  | '0' => some '\x00'
  | 't' => some '\t'
  | 'r' => some '\r'
  | 'n' => some '\n'
  | _ => none

def escapeChar (c : Char) : List Char :=
  match escapeLetter? c with
  | some letter => ['\\', letter]
  | none =>
    if Unprintable c then '\\' :: 'u' :: '{' :: Nat.toDigits 16 c.toNat ++ ['}'] else [c]

def escape (cs : List Char) : List Char := cs.flatMap escapeChar

def quote (s : String) : String := String.ofList ('"' :: escape s.toList ++ ['"'])

def hexDigit? (c : Char) : Option Nat :=
  if c.isDigit then some (c.toNat - '0'.toNat)
  else if 'a' ≤ c ∧ c ≤ 'f' then some (c.toNat - 'a'.toNat + 10)
  else none

def ofHex? (digits : List Char) : Option Char := do
  let values ← digits.mapM hexDigit?
  let code := values.foldl (fun n d => 16 * n + d) 0
  if digits ≠ [] ∧ code.isValidChar then some (Char.ofNat code) else none

def unescape? : List Char → Option (List Char)
  | [] => some []
  | '\\' :: 'u' :: '{' :: cs =>
    if '}' ∈ cs then do
      let c ← ofHex? (cs.takeWhile (· ≠ '}'))
      return c :: (← unescape? ((cs.dropWhile (· ≠ '}')).drop 1))
    else none
  | '\\' :: letter :: cs => do
    let c ← ofEscapeLetter? letter
    return c :: (← unescape? cs)
  | c :: cs => if c = '"' ∨ c = '\\' then none else (unescape? cs).map (c :: ·)
termination_by cs => cs.length
decreasing_by
  · have hs := ((List.drop_suffix 1 _).trans (cs.dropWhile_suffix (· ≠ '}'))).length_le
    simp only [List.length_cons]
    omega
  · simp only [List.length_cons]; omega
  · simp only [List.length_cons]; omega

def unquote? (s : String) : Option String :=
  match s.toList with
  | '"' :: cs =>
    if cs.getLast? = some '"' then (unescape? cs.dropLast).map String.ofList else none
  | _ => none

theorem ofEscapeLetter?_escapeLetter? {c letter : Char} (h : escapeLetter? c = some letter) :
    ofEscapeLetter? letter = some c := by
  unfold escapeLetter? at h
  split at h <;> simp only [Option.some.injEq, reduceCtorEq] at h <;> subst h <;> rfl

end WeightTables
