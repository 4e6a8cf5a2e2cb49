import WeightTables.Loading.Stepwise
import WeightTables.Proofs.Loading

/-! A load taken step by step comes to the same result as the load at once. It adds the log of that
load to the log around it and leaves the files as they are. -/

namespace WeightTables

namespace LoadStep

section

variable {α β : Type} {step : LoadStep α} {next : α → LoadStep β} {around after : Surroundings}

theorem run_bind_of_ok {a : α} (h : step.run.run around = (.ok a, after)) :
    (step >>= next).run.run around = (next a).run.run after := by
  simp only [ExceptT.run_bind, StateT.run_bind, h]
  rfl

theorem run_bind_of_error {e : LoadError} (h : step.run.run around = (.error e, after)) :
    (step >>= next).run.run around = (.error e, after) := by
  simp only [ExceptT.run_bind, StateT.run_bind, h]
  rfl

theorem run_ofExcept (x : Except LoadError α) (around : Surroundings) :
    (MonadExcept.ofExcept x : LoadStep α).run.run around = (x, around) := by
  cases x <;> rfl

section

variable {failure : IoError → LoadError} {x : Except IoError α}
  {question : FileSystem → Except IoError α} {a : α} {e : IoError}

theorem run_attempt_of_ok (h : x = .ok a) :
    (attempt failure x).run.run around = (.ok a, around) := by
  rw [attempt, run_ofExcept, h]
  rfl

theorem run_attempt_of_error (h : x = .error e) :
    (attempt failure x).run.run around = (.error (failure e), around) := by
  rw [attempt, run_ofExcept, h]
  rfl

theorem run_ask_of_ok (h : question around.files = .ok a) :
    (ask failure question).run.run around = (.ok a, around) :=
  run_attempt_of_ok h

theorem run_ask_of_error (h : question around.files = .error e) :
    (ask failure question).run.run around = (.error (failure e), around) :=
  run_attempt_of_error h

end

theorem run_record (event : LogEvent) (around : Surroundings) : (record event).run.run around =
    (.ok (), { around with log := around.log ++ [event] }) := rfl

end

theorem run_loadLocation (count : Nat) (here : Location) (fs : FileSystem) (log : List LogEvent) :
    (loadLocation count here).run.run ⟨fs, log⟩ =
      ((loadContent count (fs.read here)).result,
        ⟨fs, log ++ (loadContent count (fs.read here)).log⟩) := by
  cases hr : fs.read here with
  | error e =>
    rw [loadLocation, run_bind_of_error (run_ask_of_error hr), loadContent, List.append_nil]
  | ok bytes =>
    cases hd : decodeText bytes with
    | error e =>
      rw [loadLocation, run_bind_of_ok (run_ask_of_ok hr),
        run_bind_of_error (run_attempt_of_error hd)]
      simp only [loadContent, hd, List.append_nil]
    | ok text =>
      rw [loadLocation, run_bind_of_ok (run_ask_of_ok hr), run_bind_of_ok (run_attempt_of_ok hd),
        run_bind_of_ok (run_record _ _), run_ofExcept]
      simp only [loadContent, hd]

theorem run_loadFile (count : Nat) (path : String) (fs : FileSystem) (log : List LogEvent) :
    (loadFile count path).run.run ⟨fs, log⟩ =
      ((WeightTables.loadFile count fs path).result,
        ⟨fs, log ++ (WeightTables.loadFile count fs path).log⟩) := by
  cases ho : fs.openRead path with
  | error e =>
    rw [loadFile, openRead, run_bind_of_error (run_ask_of_error ho)]
    simp only [WeightTables.loadFile, ho, List.append_nil]
  | ok here =>
    rw [loadFile, openRead, run_bind_of_ok (run_ask_of_ok ho), run_bind_of_ok (run_record _ _),
      run_loadLocation]
    simp only [WeightTables.loadFile, ho, List.append_assoc, List.singleton_append]

end LoadStep

end WeightTables
