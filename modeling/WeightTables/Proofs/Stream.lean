import WeightTables.Loading

/-! Loading from a stream depends on its bytes and not on how they arrive. The reading of a stream
goes past pieces and interruptions until it stops, in one of three ways. A failure that stops it is
all that is reported; otherwise the table is that of the bytes in one piece. -/

namespace WeightTables

/-- Neither the end of the stream nor a failure that stops the reading. -/
def Arrival.Passing : Arrival → Prop
  | .piece bytes => bytes ≠ []
  | .failure e => e.kind = .interrupted

instance : DecidablePred Arrival.Passing
  | .piece bytes => inferInstanceAs (Decidable (bytes ≠ []))
  | .failure e => inferInstanceAs (Decidable (e.kind = .interrupted))

def Arrival.bytes : Arrival → Bytes
  | .piece bytes => bytes
  | .failure _ => []

namespace Stream

def joined (stream : Stream) : Bytes := stream.flatMap Arrival.bytes

/-- How far a stream is read, and the failure that stops the reading, if it is a failure. -/
inductive Stops : Stream → Stream → Option IoError → Prop
  | atEnd {before : Stream} (h : ∀ a ∈ before, a.Passing) : Stops before before none
  | atEmptyPiece {before : Stream} (h : ∀ a ∈ before, a.Passing) (after : Stream) :
    Stops (before ++ .piece [] :: after) before none
  | atFailure {before : Stream} (h : ∀ a ∈ before, a.Passing) {e : IoError}
    (he : e.kind ≠ .interrupted) (after : Stream) :
    Stops (before ++ .failure e :: after) before (some e)

variable {stream other before before' after : Stream} {e : IoError}

theorem Stops.cons {a : Arrival} {failure : Option IoError} (ha : a.Passing)
    (h : Stops stream before failure) : Stops (a :: stream) (a :: before) failure := by
  have hp : (∀ b ∈ before, b.Passing) → ∀ b ∈ a :: before, b.Passing := by
    intro hb b hm
    rcases List.mem_cons.mp hm with rfl | hm
    · exact ha
    · exact hb b hm
  cases h with
  | atEnd h => exact .atEnd (hp h)
  | atEmptyPiece h after => exact .atEmptyPiece (hp h) after
  | atFailure h he after => exact .atFailure (hp h) he after

theorem exists_stops (stream : Stream) : ∃ before failure, Stops stream before failure := by
  have hnil : ∀ a ∈ ([] : Stream), a.Passing := by simp
  induction stream with
  | nil => exact ⟨[], none, .atEnd hnil⟩
  | cons a rest ih =>
    by_cases ha : a.Passing
    · obtain ⟨before, failure, h⟩ := ih
      exact ⟨a :: before, failure, h.cons ha⟩
    · cases a with
      | piece bytes =>
        obtain rfl : bytes = [] := Decidable.not_not.mp ha
        exact ⟨[], none, .atEmptyPiece hnil rest⟩
      | failure e => exact ⟨[], some e, .atFailure hnil ha rest⟩

theorem content_cons {a : Arrival} (h : a.Passing) (rest : Stream) :
    content (a :: rest) = (content rest).map (a.bytes ++ ·) := by
  cases a with
  | piece bytes =>
    cases bytes with
    | nil => exact absurd rfl h
    | cons b bytes => rfl
  | failure e =>
    have he : e.kind = .interrupted := h
    rw [content, if_pos he]
    cases content rest <;> rfl

theorem content_append (h : ∀ a ∈ before, a.Passing) (rest : Stream) :
    content (before ++ rest) = (content rest).map (before.joined ++ ·) := by
  induction before with
  | nil =>
    rw [List.nil_append]
    cases content rest <;> rfl
  | cons a before ih =>
    have ha := h a List.mem_cons_self
    have hb := ih fun b hm => h b (List.mem_cons_of_mem a hm)
    rw [List.cons_append, content_cons ha, hb]
    -- a failure of the rest drops what has been read, however far the reading got
    cases content rest with
    | error e => rfl
    | ok bytes => simp [Except.map, joined]

theorem content_of_stops_none (h : Stops stream before none) :
    stream.content = .ok before.joined := by
  cases h with
  | atEnd h =>
    have hc := content_append h []
    simpa [content, Except.map] using hc
  | atEmptyPiece h after =>
    rw [content_append h]
    simp [content, Except.map]

theorem content_of_stops_some (h : Stops stream before (some e)) : stream.content = .error e := by
  cases h with
  | atFailure h he after =>
    rw [content_append h, content, if_neg he]
    rfl

theorem content_singleton (bytes : Bytes) : content [.piece bytes] = .ok bytes := by
  cases bytes with
  | nil => rfl
  | cons b bytes => simp [content, Except.map]

theorem content_congr (h : content after = content other) (before : Stream) :
    content (before ++ after) = content (before ++ other) := by
  induction before with
  | nil => exact h
  | cons a before ih =>
    cases a with
    | piece bytes => cases bytes <;> simp only [List.cons_append, content, ih]
    | failure e => simp only [List.cons_append, content, ih]

end Stream

/-- What a load from a stream depends on: the failure that stops the reading, or else the bytes up
to the end. -/
structure DependsOnBytes (count : Nat) (stream : Stream) : Prop where
  stops : ∃ before failure, stream.Stops before failure
  failed : ∀ before e, stream.Stops before (some e) → loadStream count stream = ⟨[], .error (.io e)⟩
  joined : ∀ before, stream.Stops before none →
    loadStream count stream = loadStream count [.piece before.joined]
  split : ∀ other before before', stream.Stops before none → other.Stops before' none →
    before.joined = before'.joined → loadStream count stream = loadStream count other
  interrupted : ∀ e after, e.kind = .interrupted →
    loadStream count (stream ++ .failure e :: after) = loadStream count (stream ++ after)
  ended : ∀ after, loadStream count (stream ++ .piece [] :: after) = loadStream count stream

theorem loadStream_dependsOnBytes (count : Nat) (stream : Stream) :
    DependsOnBytes count stream where
  stops := stream.exists_stops
  failed before e h := by
    rw [loadStream, Stream.content_of_stops_some h]
    rfl
  joined before h := by
    rw [loadStream, loadStream, Stream.content_of_stops_none h, Stream.content_singleton]
  split other before before' h h' he := by
    rw [loadStream, loadStream, Stream.content_of_stops_none h, Stream.content_of_stops_none h', he]
  interrupted e after he := by
    have hc : Stream.content (.failure e :: after) = Stream.content after := by
      rw [Stream.content, if_pos he]
    rw [loadStream, loadStream, Stream.content_congr hc stream]
  ended after := by
    have hc : Stream.content (.piece [] :: after) = Stream.content [] := rfl
    rw [loadStream, loadStream, Stream.content_congr hc stream, List.append_nil]

/-- A blank of two bytes that is cut by an interruption, and a failure after bytes that encode no
text. -/
theorem loadStream_dependsOnBytes_small :
    loadStream 2 [.piece [0x31, 0x2e, 0x35, 0xc2], .failure (.reported .interrupted "again"),
        .piece [0xa0, 0x2d, 0x32], .piece [], .piece [0xff]] =
      loadStream 2 [.piece [0x31, 0x2e, 0x35, 0xc2, 0xa0, 0x2d, 0x32]] ∧
    loadStream 0 [.piece [0xff], .failure (.reported .timedOut "late"), .piece []] =
      ⟨[], .error (.io (.reported .timedOut "late"))⟩ := by
  have hcut : ∀ a ∈ ([.piece [0x31, 0x2e, 0x35, 0xc2], .failure (.reported .interrupted "again"),
      .piece [0xa0, 0x2d, 0x32]] : Stream), a.Passing := by decide
  have hlate : ∀ a ∈ ([.piece [0xff]] : Stream), a.Passing := by decide
  have he : (IoError.reported .timedOut "late").kind ≠ .interrupted := by decide
  exact ⟨(loadStream_dependsOnBytes 2 _).joined _ (.atEmptyPiece hcut _),
    (loadStream_dependsOnBytes 0 _).failed _ _ (.atFailure hlate he _)⟩

end WeightTables
