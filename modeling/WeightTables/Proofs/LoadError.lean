import WeightTables.LoadError
import WeightTables.Proofs.Export.Diagnosis

/-! Messages that tell errors apart. The message of a load error that is no failure to read belongs
to that error alone, whatever texts and numbers it was made from, and the message about a token that
has no literal gives the token and its index. -/

namespace WeightTables

theorem toList_number_between (front between a : String) (n : Nat) :
    (front ++ toString n ++ between ++ a).toList =
      front.toList ++ (Nat.toDigits 10 n ++ (between.toList ++ a.toList)) := by
  simp

theorem number_between_inj {front between a b : String} {m n : Nat}
    (hc : ∃ c ∈ between.toList.head?, c.isDigit = false)
    (h : front ++ toString m ++ between ++ a = front ++ toString n ++ between ++ b) :
    m = n ∧ a = b := by
  have hl := congrArg String.toList h
  rw [toList_number_between, toList_number_between] at hl
  obtain ⟨hm, hr⟩ := digits_between_inj hc hl
  exact ⟨hm, String.toList_inj.mp hr⟩

theorem numbers_between_inj {front between : String} {m n k l : Nat}
    (hc : ∃ c ∈ between.toList.head?, c.isDigit = false)
    (h : front ++ toString m ++ between ++ toString k =
      front ++ toString n ++ between ++ toString l) : m = n ∧ k = l := by
  obtain ⟨hm, hk⟩ := number_between_inj hc h
  have hd := congrArg String.toList hk
  exact ⟨hm, digits_injective (by simpa using hd)⟩

namespace LoadError

theorem message_fileNotFound (path : String) :
    (fileNotFound path).message = "Weight file not found: " ++ path := rfl

theorem message_io (e : IoError) : (io e).message = "I/O error: " ++ e.message := rfl

theorem message_badToken (i : Nat) (t : String) : (badToken i t).message =
    "Invalid weight at index " ++ toString i ++ ": " ++ quote t := rfl

theorem message_wrongCount (e f : Nat) : (wrongCount e f).message =
    "Expected " ++ toString e ++ " weights, found " ++ toString f := rfl

theorem message_wrongByteCount (e f : Nat) : (wrongByteCount e f).message =
    "Expected " ++ toString e ++ " bytes of weight data, found " ++ toString f := rfl

/-- The first two letters tell errors apart, except for the two kinds of wrong numbers. -/
theorem take_message (e : LoadError) : e.message.toList.take 2 = match e with
    | fileNotFound _ => ['W', 'e']
    | io _ => ['I', '/']
    | badToken _ _ => ['I', 'n']
    | wrongCount _ _ => ['E', 'x']
    | wrongByteCount _ _ => ['E', 'x'] := by
  cases e with
  | fileNotFound path => simp [message_fileNotFound]
  | io e => simp [message_io]
  | badToken i t => simp [message_badToken]
  | wrongCount e f => simp [message_wrongCount]
  | wrongByteCount e f => simp [message_wrongByteCount]

theorem message_wrongCount_ne (e f e' f' : Nat) :
    (wrongCount e f).message ≠ (wrongByteCount e' f').message := by
  intro h
  have hl := congrArg String.toList h
  rw [message_wrongCount, message_wrongByteCount, toList_number_between,
    toList_number_between] at hl
  -- both go on after the number, and what comes first there is the word
  have hr := (digits_append_inj (by simp) (by simp) (List.append_cancel_left hl)).2
  simp at hr

theorem eq_of_message_eq {e f : LoadError} (he : e.source? = none) (h : f.message = e.message) :
    f = e := by
  have hh := congrArg (fun s => s.toList.take 2) h
  simp only [take_message] at hh
  cases e with
  | fileNotFound path =>
    cases f with
    | fileNotFound path' =>
      rw [message_fileNotFound, message_fileNotFound, String.append_right_inj] at h
      rw [h]
    | _ => simp at hh
  | io x => simp [source?] at he
  | badToken i t =>
    cases f with
    | badToken j u =>
      rw [message_badToken, message_badToken] at h
      obtain ⟨rfl, hq⟩ := number_between_inj (by simp) h
      rw [quote_injective hq]
    | _ => simp at hh
  | wrongCount m n =>
    cases f with
    | wrongCount m' n' =>
      rw [message_wrongCount, message_wrongCount] at h
      obtain ⟨rfl, rfl⟩ := numbers_between_inj (by simp) h
      rfl
    | wrongByteCount m' n' => exact absurd h.symm (message_wrongCount_ne m n m' n')
    | _ => simp at hh
  | wrongByteCount m n =>
    cases f with
    | wrongByteCount m' n' =>
      rw [message_wrongByteCount, message_wrongByteCount] at h
      obtain ⟨rfl, rfl⟩ := numbers_between_inj (by simp) h
      rfl
    | wrongCount m' n' => exact absurd h (message_wrongCount_ne m' n' m n)
    | _ => simp at hh

/-- No other error has the message. -/
structure Unambiguous (e : LoadError) : Prop where
  alone : ∀ f : LoadError, f.source? = none → f.message = e.message → f = e
  notIo : ∀ x : IoError, (io x).message ≠ e.message

theorem unambiguous_of_source? {e : LoadError} (he : e.source? = none) : e.Unambiguous where
  alone _ _ h := eq_of_message_eq he h
  notIo x h := by
    rw [← eq_of_message_eq he h] at he
    exact absurd he (Option.some_ne_none x)

end LoadError

/-- Messages and the quoted texts in them can be traced back to what they were made from. -/
theorem messages_unambiguous :
    (∀ e : LoadError, e.source? = none → e.Unambiguous) ∧
      (∀ text, WellQuoted text (quote text)) ∧
        ∀ i t (x : ArrayError), x.message = s!"token {i} ({quote t}) is not a decimal value" →
          x = .badToken i t := by
  refine ⟨fun e he => LoadError.unambiguous_of_source? he, wellQuoted_quote, fun i t x h => ?_⟩
  have hm : x.message = (ArrayError.badToken i t).message := h
  exact ArrayError.message_injective hm

/-- Tokens that look like an escape, like another message or like the end of a quoted text. -/
theorem messages_unambiguous_small :
    (LoadError.badToken 0 "\\t").message ≠ (LoadError.badToken 0 "\t").message ∧
    (LoadError.io (.reported .other "x")).message ≠
      (LoadError.fileNotFound "I/O error: x").message ∧
    unquote? (quote "0\"\\") = some "0\"\\" ∧
    (ArrayError.badToken 1 "1\") (").message ≠ (ArrayError.badToken 11 ") (").message := by
  obtain ⟨he, hq, hx⟩ := messages_unambiguous
  refine ⟨fun h => ?_, (he _ rfl).notIo _, (hq _).undone, fun h => ?_⟩
  · exact absurd ((he _ rfl).alone _ rfl h) (by decide)
  · exact absurd (hx 11 ") (" _ h) (by decide)

end WeightTables
