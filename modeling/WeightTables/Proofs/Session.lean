import WeightTables.Proofs.Export.Diagnosis
import WeightTables.Proofs.Registry
import WeightTables.Proofs.Stream
import WeightTables.Proofs.Table.Bytes
import WeightTables.Session

/-! Sessions command by command and as a whole. A command writes one register at most, always the
same one, and none at all if it fails. So the commands of a session that fail can be struck out, and
a register that no command writes stays as it was. The build matters only to commands that look up a
table. -/

namespace WeightTables

/-- An answer that says what went wrong, or that there is no table of a name. -/
def Answer.failed : Answer → Bool
  | .found none => true
  | .loaded (.error _) => true
  | .arrayText (.error _) => true
  | .query (.required (.error _)) => true
  | _ => false

inductive Register where
  | text
  | bytes
  | values
  deriving DecidableEq

/-- The register that a command is there to write. -/
def Command.target? : Command → Option Register
  | .setText _ | .appendText _ | .dropBrackets | .arrayText _ => some .text
  | .textToBytes | .setBytes _ | .appendBytes _ | .valuesToBytes => some .bytes
  | .setValues _ | .lookup _ | .loadText _ | .loadStream _ | .loadBytes _ => some .values
  | .tokens | .query _ => none

/-- A command that by itself puts finite weights only among the values. -/
def Command.KeepsFinite : Command → Prop
  | .setValues values => ∀ w ∈ values, w.IsFinite
  | .loadBytes _ => False
  | _ => True

/-- What a command with a target may answer, and the session after it. -/
inductive StepOutcome (s : Session) : Option Register → Answer → Session → Prop
  | failed {target : Option Register} {answer : Answer} (h : answer.failed = true) :
    StepOutcome s target answer s
  | looked {answer : Answer} (h : answer.failed = false) : StepOutcome s none answer s
  | text {answer : Answer} {text : String} (h : answer.failed = false) :
    StepOutcome s (some .text) answer { s with text }
  | bytes {answer : Answer} {bytes : Bytes} (h : answer.failed = false) :
    StepOutcome s (some .bytes) answer { s with bytes }
  | values {answer : Answer} {values : List Weight} (h : answer.failed = false) :
    StepOutcome s (some .values) answer { s with values }

namespace Session

def SameIn (s t : Session) : Register → Prop
  | .text => s.text = t.text
  | .bytes => s.bytes = t.bytes
  | .values => s.values = t.values

/-- The session that a row of commands leaves behind. -/
def after (mode : BuildMode) (s : Session) (commands : List Command) : Session :=
  commands.foldl (fun s command => (s.step mode command).2) s

/-- The commands that do not fail where they stand. -/
def effective (mode : BuildMode) (s : Session) : List Command → List Command
  | [] => []
  | command :: rest =>
    let (answer, next) := s.step mode command
    if answer.failed then effective mode s rest else command :: effective mode next rest

def IsFinite (s : Session) : Prop := ∀ w ∈ s.values, w.IsFinite

variable {mode : BuildMode} {s : Session} {r : Register} {command : Command}

theorem SameIn.refl (s : Session) (r : Register) : s.SameIn s r := by
  cases r <;> rfl

theorem SameIn.trans {t u : Session} (h : s.SameIn t r) (h' : t.SameIn u r) : s.SameIn u r := by
  cases r with
  | text => exact Eq.trans h h'
  | bytes => exact Eq.trans h h'
  | values => exact Eq.trans h h'

theorem putLoaded_ok (s : Session) (values : List Weight) :
    s.putLoaded (.ok values) = (.loaded (.ok values), { s with values }) := rfl

theorem putLoaded_outcome (s : Session) (result : Except LoadError (List Weight)) :
    StepOutcome s (some .values) (s.putLoaded result).1 (s.putLoaded result).2 := by
  cases result with
  | error e => exact .failed rfl
  | ok values => exact .values rfl

theorem found_outcome (s : Session) (found : Option (List Weight)) :
    StepOutcome s (some .values) (.found found) { s with values := found.getD s.values } := by
  cases found with
  | none => exact .failed rfl
  | some values => exact .values rfl

theorem arrayText_outcome (s : Session) (result : Except ArrayError String) :
    StepOutcome s (some .text) (.arrayText result)
      { s with text := result.toOption.getD s.text } := by
  cases result with
  | error e => exact .failed rfl
  | ok table => exact .text rfl

theorem step_outcome (mode : BuildMode) (s : Session) (command : Command) :
    StepOutcome s command.target? (s.step mode command).1 (s.step mode command).2 := by
  cases command with
  | setText => exact .text rfl
  | appendText => exact .text rfl
  | textToBytes => exact .bytes rfl
  | dropBrackets => exact .text rfl
  | setBytes => exact .bytes rfl
  | appendBytes => exact .bytes rfl
  | setValues => exact .values rfl
  | lookup => exact found_outcome s _
  | tokens => exact .looked rfl
  | loadText => exact putLoaded_outcome s _
  | loadStream => exact putLoaded_outcome s _
  | loadBytes => exact putLoaded_outcome s _
  | valuesToBytes => exact .bytes rfl
  | arrayText => exact arrayText_outcome s _
  | query q =>
    cases hf : (s.step mode (.query q)).1.failed with
    | true => exact .failed hf
    | false => exact .looked hf

theorem step_of_failed (h : (s.step mode command).1.failed = true) :
    (s.step mode command).2 = s := by
  have ho := step_outcome mode s command
  generalize s.step mode command = next at h ho
  generalize command.target? = target at ho
  obtain ⟨answer, after⟩ := next
  cases ho with
  | failed => rfl
  | looked => rfl
  | text hf => exact absurd (h.symm.trans hf) (by decide)
  | bytes hf => exact absurd (h.symm.trans hf) (by decide)
  | values hf => exact absurd (h.symm.trans hf) (by decide)

theorem step_sameIn (h : command.target? ≠ some r) : s.SameIn (s.step mode command).2 r := by
  have ho := step_outcome mode s command
  generalize s.step mode command = next at ho
  generalize command.target? = target at h ho
  obtain ⟨answer, after⟩ := next
  cases ho with
  | failed => exact .refl _ r
  | looked => exact .refl _ r
  | text => cases r <;> first | rfl | exact absurd rfl h
  | bytes => cases r <;> first | rfl | exact absurd rfl h
  | values => cases r <;> first | rfl | exact absurd rfl h

theorem putLoaded_isFinite {result : Except LoadError (List Weight)} (hs : s.IsFinite)
    (h : ∀ values, result = .ok values → ∀ w ∈ values, w.IsFinite) :
    (s.putLoaded result).2.IsFinite := by
  cases result with
  | error e => exact hs
  | ok values => exact h values rfl

theorem step_isFinite (hs : s.IsFinite) (hc : command.KeepsFinite) :
    (s.step mode command).2.IsFinite := by
  cases command with
  | setValues values => exact hc
  | lookup name =>
    show ∀ w ∈ ((lookup? mode name).map Table.values).getD s.values, w.IsFinite
    cases hl : lookup? mode name with
    | none => exact hs
    | some t => exact fun w => isFinite_of_mem_tables (mem_tables_of_lookup? hl).1
  | loadText => exact putLoaded_isFinite hs fun _ => isFinite_of_loadText
  | loadStream => exact putLoaded_isFinite hs fun _ => isFinite_of_loadContent
  | loadBytes => exact absurd hc id
  | _ => exact hs

theorem step_mode_congr (h : ∀ name, command = .lookup name → lookup? mode name = none)
    (mode' : BuildMode) : s.step mode command = s.step mode' command := by
  cases command with
  | lookup name =>
    have hn := h name rfl
    have hn' := (lookup?_eq_none_congr mode mode' name).mp hn
    rw [step, step, hn, hn']
  | _ => rfl

section

variable {commands : List Command}

theorem after_cons (mode : BuildMode) (s : Session) (command : Command) (rest : List Command) :
    s.after mode (command :: rest) = (s.step mode command).2.after mode rest := rfl

theorem run_cons (mode : BuildMode) (s : Session) (command : Command) (rest : List Command) :
    s.run mode (command :: rest) =
      (s.step mode command).1 :: (s.step mode command).2.run mode rest := rfl

/-- A session can be broken off and taken up again. -/
theorem run_append (mode : BuildMode) (s : Session) (before rest : List Command) :
    s.after mode (before ++ rest) = (s.after mode before).after mode rest ∧
      s.run mode (before ++ rest) =
        s.run mode before ++ (s.after mode before).run mode rest := by
  induction before generalizing s with
  | nil => exact ⟨rfl, rfl⟩
  | cons command before ih =>
    obtain ⟨ha, hr⟩ := ih (s.step mode command).2
    rw [List.cons_append, after_cons, after_cons, run_cons, run_cons, ha, hr]
    exact ⟨rfl, rfl⟩

theorem after_sameIn (h : ∀ command ∈ commands, command.target? ≠ some r) :
    s.SameIn (s.after mode commands) r := by
  induction commands generalizing s with
  | nil => exact .refl s r
  | cons command rest ih =>
    obtain ⟨hc, hr⟩ := List.forall_mem_cons.mp h
    exact (step_sameIn hc).trans (ih hr)

theorem after_isFinite (hs : s.IsFinite) (h : ∀ command ∈ commands, command.KeepsFinite) :
    (s.after mode commands).IsFinite := by
  induction commands generalizing s with
  | nil => exact hs
  | cons command rest ih =>
    obtain ⟨hc, hr⟩ := List.forall_mem_cons.mp h
    exact ih (step_isFinite hs hc) hr

/-- A session that looks up no table of the build cannot tell one build from the other. -/
theorem run_mode_congr (h : ∀ name, .lookup name ∈ commands → lookup? mode name = none)
    (mode' : BuildMode) : s.run mode commands = s.run mode' commands ∧
      s.after mode commands = s.after mode' commands := by
  induction commands generalizing s with
  | nil => exact ⟨rfl, rfl⟩
  | cons command rest ih =>
    have hc : s.step mode command = s.step mode' command :=
      step_mode_congr (fun name he => h name (he ▸ List.mem_cons_self)) mode'
    obtain ⟨hr, ha⟩ := @ih (s.step mode command).2 fun name hm => h name (List.mem_cons_of_mem _ hm)
    rw [run_cons, run_cons, after_cons, after_cons, hr, ha, hc]
    exact ⟨rfl, rfl⟩

theorem effective_cons_of_failed (h : (s.step mode command).1.failed = true)
    (rest : List Command) : s.effective mode (command :: rest) = s.effective mode rest :=
  if_pos h

theorem effective_cons_of_not_failed (h : (s.step mode command).1.failed = false)
    (rest : List Command) : s.effective mode (command :: rest) =
      command :: (s.step mode command).2.effective mode rest :=
  if_neg (Bool.eq_false_iff.mp h)

theorem effective_sublist (mode : BuildMode) (s : Session) (commands : List Command) :
    (s.effective mode commands).Sublist commands := by
  induction commands generalizing s with
  | nil => exact .slnil
  | cons command rest ih =>
    cases hf : (s.step mode command).1.failed with
    | true =>
      rw [effective_cons_of_failed hf]
      exact (ih s).cons command
    | false =>
      rw [effective_cons_of_not_failed hf]
      exact (ih _).cons_cons command

theorem run_effective (mode : BuildMode) (s : Session) (commands : List Command) :
    s.after mode (s.effective mode commands) = s.after mode commands ∧
      s.run mode (s.effective mode commands) =
        (s.run mode commands).filter fun answer => !answer.failed := by
  induction commands generalizing s with
  | nil => exact ⟨rfl, rfl⟩
  | cons command rest ih =>
    cases hf : (s.step mode command).1.failed with
    | true =>
      rw [effective_cons_of_failed hf, after_cons, run_cons, step_of_failed hf,
        List.filter_cons_of_neg (by simp [hf])]
      exact ih s
    | false =>
      obtain ⟨ha, hr⟩ := ih (s.step mode command).2
      rw [effective_cons_of_not_failed hf, after_cons, after_cons, run_cons, run_cons, ha, hr,
        List.filter_cons_of_pos (by simp [hf])]
      exact ⟨rfl, rfl⟩

/-- The commands that fail can be struck out: the session ends the same, and the answers to the
others are as before. -/
theorem exists_sublist_not_failed (mode : BuildMode) (s : Session) (commands : List Command) :
    ∃ kept : List Command, kept.Sublist commands ∧ s.after mode kept = s.after mode commands ∧
      s.run mode kept = (s.run mode commands).filter fun answer => !answer.failed :=
  ⟨s.effective mode commands, effective_sublist mode s commands, run_effective mode s commands⟩

end

/-- Values that are turned into bytes are loaded again as they were. -/
theorem run_valuesToBytes_loadBytes (mode : BuildMode) (s : Session) :
    s.run mode [.valuesToBytes, .loadBytes s.values.length] =
        [.bytes (bytesOfWeights s.values), .loaded (.ok s.values)] ∧
      s.after mode [.valuesToBytes, .loadBytes s.values.length] =
        { s with bytes := bytesOfWeights s.values } := by
  have hl : WeightTables.loadBytes s.values.length (bytesOfWeights s.values) = .ok s.values :=
    loadBytes_eq_ok.mpr ⟨rfl, rfl⟩
  have hb : s.step mode .valuesToBytes =
    (.bytes (bytesOfWeights s.values), { s with bytes := bytesOfWeights s.values }) := rfl
  have hv : Session.step mode { s with bytes := bytesOfWeights s.values }
      (.loadBytes s.values.length) =
      (.loaded (.ok s.values), { s with bytes := bytesOfWeights s.values }) := by
    rw [step, hl, putLoaded_ok]
  rw [run_cons, after_cons, hb, run_cons, after_cons, hv]
  exact ⟨rfl, rfl⟩

/-- A text that is turned into bytes loads from a stream of them as the text itself does. -/
theorem run_textToBytes_loadStream (mode : BuildMode) (s : Session) (count : Nat) :
    s.run mode [.textToBytes, .loadStream count] =
        [.size (bytesOfText s.text).length, .loaded (WeightTables.loadText count s.text)] ∧
      s.after mode [.textToBytes, .loadStream count] =
        { (s.step mode (.loadText count)).2 with bytes := bytesOfText s.text } := by
  have hl : (WeightTables.loadStream count [.piece (bytesOfText s.text)]).result =
      WeightTables.loadText count s.text := by
    rw [WeightTables.loadStream, Stream.content_singleton, loadContent_bytesOfText]
  have hb : s.step mode .textToBytes =
    (.size (bytesOfText s.text).length, { s with bytes := bytesOfText s.text }) := rfl
  have hv : Session.step mode { s with bytes := bytesOfText s.text } (.loadStream count) =
      Session.putLoaded { s with bytes := bytesOfText s.text }
        (WeightTables.loadText count s.text) := by
    rw [step, hl]
  rw [run_cons, after_cons, hb, run_cons, after_cons, hv]
  exact ⟨rfl, rfl⟩

/-- A text that loads is turned into an array text and back without a loss. -/
theorem run_arrayText_loadText {count : Nat} {values : List Weight} (hf : TableFits count)
    (h : WeightTables.loadText count s.text = .ok values) (mode : BuildMode) :
    ∃ table, s.run mode [.arrayText count, .dropBrackets, .loadText count] =
        [.arrayText (.ok table), .size (withoutBrackets table).utf8ByteSize,
          .loaded (.ok values)] ∧
      s.after mode [.arrayText count, .dropBrackets, .loadText count] =
        { s with text := withoutBrackets table, values } := by
  obtain ⟨table, ha⟩ := (sameDiagnosis_of_le hf.le_literalCapacity).ok.mpr ⟨values, h⟩
  obtain ⟨_, ws, hw, hs, _, _⟩ := standFor_withoutBrackets ha
  have hb : WeightTables.loadText count (withoutBrackets table) = .ok values := by
    rw [loadText_of_standFor hs, ← loadText_of_standFor hw, h]
  have ht : s.step mode (.arrayText count) =
      (.arrayText (.ok table), { s with text := table }) := by
    rw [step, ha]
    rfl
  have hd : Session.step mode { s with text := table } .dropBrackets =
    (.size (withoutBrackets table).utf8ByteSize, { s with text := withoutBrackets table }) := rfl
  have hv : Session.step mode { s with text := withoutBrackets table } (.loadText count) =
      (.loaded (.ok values), { s with text := withoutBrackets table, values }) := by
    rw [step, hb, putLoaded_ok]
  refine ⟨table, ?_⟩
  rw [run_cons, after_cons, ht, run_cons, after_cons, hd, run_cons, after_cons, hv]
  exact ⟨rfl, rfl⟩

end Session

end WeightTables
