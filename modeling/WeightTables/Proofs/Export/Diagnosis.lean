import WeightTables.Proofs.Export.ArrayText
import WeightTables.Proofs.Text.Quoted

/-! An array text is refused for the same reason as the table, for every count that a table can have.
Only beyond that, where no room for the literals can be set aside, it fails before a token is
looked at. -/

namespace WeightTables

namespace ArrayError

theorem toList_message_badToken (i : Nat) (t : String) :
    (badToken i t).message.toList = "token ".toList ++ (Nat.toDigits 10 i ++
      (" (".toList ++ ((quote t).toList ++ ") is not a decimal value".toList))) := by
  simp [message]

theorem toList_message_wrongCount (e f : Nat) :
    (wrongCount e f).message.toList = "expected ".toList ++ (Nat.toDigits 10 e ++
      (" values, found ".toList ++ Nat.toDigits 10 f)) := by
  simp [message]

theorem head_message (e : ArrayError) : e.message.toList.head? = some (match e with
    | capacityOverflow => 'c'
    | badToken _ _ => 't'
    | wrongCount _ _ => 'e') := by
  cases e with
  | capacityOverflow => simp [message]
  | badToken i t => simp [toList_message_badToken]
  | wrongCount e f => simp [toList_message_wrongCount]

theorem message_injective : Function.Injective message := by
  intro a b h
  have hh := congrArg (fun s => s.toList.head?) h
  simp only [head_message] at hh
  have hl := congrArg String.toList h
  cases a with
  | capacityOverflow => cases b <;> simp_all
  | badToken i t =>
    cases b with
    | badToken j u =>
      rw [toList_message_badToken, toList_message_badToken] at hl
      obtain ⟨rfl, hr⟩ := digits_between_inj (by simp) hl
      rw [quote_injective (String.toList_inj.mp (List.append_cancel_right hr))]
    | _ => simp at hh
  | wrongCount e f =>
    cases b with
    | wrongCount e' f' =>
      rw [toList_message_wrongCount, toList_message_wrongCount] at hl
      obtain ⟨rfl, hr⟩ := digits_between_inj (by simp) hl
      rw [digits_injective hr]
    | _ => simp at hh

end ArrayError

variable {text : String} {count : Nat}

/-- A text has an array text exactly when it loads, and a refusal comes with the wording that
belongs to what the load reports. -/
structure SameDiagnosis (text : String) (count : Nat) : Prop where
  ok : (∃ table, arrayText text count = .ok table) ↔ ∃ values, loadText count text = .ok values
  badToken : ∀ i t,
    (arrayText text count).mapError ArrayError.message =
        .error s!"token {i} ({quote t}) is not a decimal value" ↔
      loadText count text = .error (.badToken i t)
  wrongCount : ∀ found,
    (arrayText text count).mapError ArrayError.message =
        .error s!"expected {count} values, found {found}" ↔
      loadText count text = .error (.wrongCount count found)

theorem mapError_message_eq_iff {x : Except ArrayError String} {e : ArrayError} :
    x.mapError ArrayError.message = .error e.message ↔ x = .error e := by
  cases x with
  | error a => simp [Except.mapError, ArrayError.message_injective.eq_iff]
  | ok a => simp [Except.mapError]

theorem arrayText_loadText_cases (h : count ≤ literalCapacity) (text : String) :
    (∃ ws, loadText count text = .ok ws ∧
        arrayText text count = .ok (layOut (ws.map Weight.literal))) ∨
      (∃ i t, loadText count text = .error (.badToken i t) ∧
        arrayText text count = .error (.badToken i t)) ∨
      ∃ k, loadText count text = .error (.wrongCount count k) ∧
        arrayText text count = .error (.wrongCount count k) := by
  rcases loadText_cases count text with ⟨ws, hw, hl, hr⟩ | ⟨i, t, hb, hr⟩ | ⟨ws, hw, hl, hr⟩
  · exact .inl ⟨ws, hr, by rw [arrayText_of_standFor hw h, if_pos hl]⟩
  · exact .inr (.inl ⟨i, t, hr, arrayText_of_firstBad hb h⟩)
  · exact .inr (.inr ⟨ws.length, hr, by rw [arrayText_of_standFor hw h, if_neg hl]⟩)

theorem sameDiagnosis_of_le (h : count ≤ literalCapacity) : SameDiagnosis text count := by
  have hb : ∀ i t, (arrayText text count).mapError ArrayError.message =
      .error (ArrayError.badToken i t).message ↔ arrayText text count = .error (.badToken i t) :=
    fun _ _ => mapError_message_eq_iff
  have hc : ∀ k, (arrayText text count).mapError ArrayError.message =
      .error (ArrayError.wrongCount count k).message ↔
        arrayText text count = .error (.wrongCount count k) := fun _ => mapError_message_eq_iff
  refine ⟨?_, fun i t => (hb i t).trans ?_, fun k => (hc k).trans ?_⟩
  all_goals
    rcases arrayText_loadText_cases h text with ⟨ws, hl, ha⟩ | ⟨i, t, hl, ha⟩ | ⟨k, hl, ha⟩ <;>
      simp [hl, ha]

/-- Whether there is room for the literals is a matter of the count alone. -/
theorem arrayText_eq_overflow_iff :
    arrayText text count = .error .capacityOverflow ↔ literalCapacity < count := by
  constructor
  · intro h
    by_contra hc
    rcases arrayText_loadText_cases (Nat.le_of_not_lt hc) text with
      ⟨ws, _, ha⟩ | ⟨i, t, _, ha⟩ | ⟨k, _, ha⟩ <;> simp [ha] at h
  · exact arrayText_of_overflow

theorem TableFits.le_literalCapacity (h : TableFits count) : count ≤ literalCapacity := by
  have hc : literalCapacity = 384307168202282325 := rfl
  unfold TableFits at h
  omega

/-- The array text and the table agree on every text, for every count that a table can have. -/
theorem sameDiagnosis (h : TableFits count) (text : String) : SameDiagnosis text count :=
  sameDiagnosis_of_le h.le_literalCapacity

/-- The second of three tokens stands for no weight, which comes before their number. -/
theorem sameDiagnosis_small : TableFits 2 ∧
    loadText 2 "1, nan 2" = .error (.badToken 1 "nan") ∧
    (arrayText "1, nan 2" 2).mapError ArrayError.message =
      .error "token 1 (\"nan\") is not a decimal value" := by
  have hf : TableFits 2 := by decide
  have hl : loadText 2 "1, nan 2" = .error (.badToken 1 "nan") := by decide +kernel
  exact ⟨hf, hl, ((sameDiagnosis hf _).badToken 1 "nan").mpr hl⟩

end WeightTables
