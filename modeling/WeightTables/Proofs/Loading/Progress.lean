import WeightTables.Proofs.Loading.Stepwise
import WeightTables.Proofs.Text.Encoding

/-! How far a load from a named file gets. The file is opened, its bytes are read as a text, and the
text is loaded as a table. Each of the first two is put on record once it is done, so the log tells
which one failed, if any did, and what kind of result to expect. No file is touched on the way. -/

namespace WeightTables

open Utf8

inductive Stage where
  | unopened (error : IoError)
  | unread (error : IoError)
  | read (content : Bytes) (text : String)

/-- How far one gets with the file that a path leads to. -/
inductive FileSystem.Reaches (fs : FileSystem) (path : String) : Stage → Prop
  | unopened {e : IoError} (h : fs.openRead path = .error e) : Reaches fs path (.unopened e)
  | directory {here : Location} (h : fs.openRead path = .ok here)
    (hd : fs.entry? here = some .directory) : Reaches fs path (.unread (.fault .isADirectory))
  | malformed {here : Location} {content : Bytes} (h : fs.openRead path = .ok here)
    (hf : fs.entry? here = some (.file content)) (hm : ¬ ∃ text, EncodesText content text) :
    Reaches fs path (.unread .invalidText)
  | text {here : Location} {content : Bytes} {text : String} (h : fs.openRead path = .ok here)
    (hf : fs.entry? here = some (.file content)) (ht : EncodesText content text) :
    Reaches fs path (.read content text)

def Stage.run (count : Nat) (path : String) : Stage → LoadRun
  | unopened e => ⟨[], .error (if e.kind = .notFound then .fileNotFound path else .io e)⟩
  | unread e => ⟨[.opened path], .error (.io e)⟩
  | read content text => ⟨[.opened path, .read content.length], loadText count text⟩

section

variable {fs : FileSystem} {path : String} {stage : Stage}

theorem exists_reaches (fs : FileSystem) (path : String) : ∃ stage, fs.Reaches path stage := by
  cases h : fs.openRead path with
  | error e => exact ⟨_, .unopened h⟩
  | ok here =>
    obtain ⟨entry, hs⟩ := Option.isSome_iff_exists.mp (FileSystem.isSome_of_openRead h)
    cases entry with
    | directory => exact ⟨_, .directory h hs⟩
    | file content =>
      by_cases ht : ∃ text, EncodesText content text
      · obtain ⟨text, ht⟩ := ht
        exact ⟨_, .text h hs ht⟩
      · exact ⟨_, .malformed h hs ht⟩

theorem loadFile_of_reaches (h : fs.Reaches path stage) (count : Nat) :
    loadFile count fs path = stage.run count path := by
  cases h with
  | unopened h => simp only [loadFile, h, Stage.run]
  | directory h hd => simp only [loadFile, h, FileSystem.read, hd, loadContent, Stage.run]
  | malformed h hf hm =>
    simp only [loadFile, h, FileSystem.read, hf, loadContent, decodeText_of_not_encodesText hm,
      Stage.run]
  | text h hf ht =>
    simp only [loadFile, h, FileSystem.read, hf, loadContent, decodeText_of_encodesText ht,
      Stage.run]

theorem exists_stage (count : Nat) (fs : FileSystem) (path : String) :
    ∃ stage, fs.Reaches path stage ∧ loadFile count fs path = stage.run count path := by
  obtain ⟨stage, h⟩ := exists_reaches fs path
  exact ⟨stage, h, loadFile_of_reaches h count⟩

end

/-- A result that tells of a text: its table, or what is wrong with its tokens. -/
inductive TellsOfText : Except LoadError (List Weight) → Prop
  | loaded (values : List Weight) : TellsOfText (.ok values)
  | badToken (index : Nat) (token : String) : TellsOfText (.error (.badToken index token))
  | wrongCount (expected found : Nat) : TellsOfText (.error (.wrongCount expected found))

theorem tellsOfText_loadText (count : Nat) (text : String) : TellsOfText (loadText count text) := by
  rcases loadText_cases count text with ⟨ws, _, _, hr⟩ | ⟨i, t, _, hr⟩ | ⟨ws, _, _, hr⟩
  · exact hr ▸ .loaded ws
  · exact hr ▸ .badToken i t
  · exact hr ▸ .wrongCount count ws.length

section

variable {count : Nat} {path : String} {e : IoError} {stage : Stage}

theorem exists_read_of_tellsOfText (h : TellsOfText (stage.run count path).result) :
    ∃ content text, stage = .read content text := by
  cases stage with
  | unopened e =>
    by_cases hk : e.kind = .notFound
    · simp only [Stage.run, hk, if_true] at h
      cases h
    · simp only [Stage.run, hk, if_false] at h
      cases h
  | unread e => cases h
  | read content text => exact ⟨content, text, rfl⟩

theorem lines_unopened : ((Stage.unopened e).run count path).log.map LogEvent.line = [] := rfl

theorem lines_unread : ((Stage.unread e).run count path).log.map LogEvent.line =
    ["DEBUG Loading weights from " ++ path] := rfl

theorem lines_read {content : Bytes} {text : String} :
    ((Stage.read content text).run count path).log.map LogEvent.line =
      ["DEBUG Loading weights from " ++ path,
        s!"DEBUG Read {content.length} bytes of weight text"] := rfl

end

/-- What the lines of a log tell about a load from a file, and the result about the lines. -/
structure LogTells (count : Nat) (fs : FileSystem) (path : String) (run : LoadRun) : Prop where
  unopened_iff : run.log.map LogEvent.line = [] ↔ ∃ e, fs.Reaches path (.unopened e)
  unopened : ∀ e, fs.Reaches path (.unopened e) →
    run.result = .error (if e.kind = .notFound then .fileNotFound path else .io e)
  unread_iff : run.log.map LogEvent.line = ["DEBUG Loading weights from " ++ path] ↔
    ∃ e, fs.Reaches path (.unread e)
  unread : ∀ e, fs.Reaches path (.unread e) → run.result = .error (.io e)
  read_iff : (∃ size : Nat, run.log.map LogEvent.line =
      ["DEBUG Loading weights from " ++ path, s!"DEBUG Read {size} bytes of weight text"]) ↔
    TellsOfText run.result
  read : TellsOfText run.result → ∃ content text, fs.Reaches path (.read content text) ∧
    run.log.map LogEvent.line = ["DEBUG Loading weights from " ++ path,
      s!"DEBUG Read {content.length} bytes of weight text"] ∧
    run.result = loadText count text
  stepwise : ∀ log, (LoadStep.loadFile count path).run.run ⟨fs, log⟩ =
    (run.result, ⟨fs, log ++ run.log⟩)

/-- Opening, reading and loading the text are told apart by the log, and only a failure to open can
be a missing file. -/
theorem loadFile_logTells (count : Nat) (fs : FileSystem) (path : String) :
    LogTells count fs path (loadFile count fs path) where
  unopened_iff := by
    constructor
    · intro h
      obtain ⟨stage, hs, hr⟩ := exists_stage count fs path
      rw [hr] at h
      cases stage with
      | unopened e => exact ⟨e, hs⟩
      | unread e => simp [lines_unread] at h
      | read content text => simp [lines_read] at h
    · rintro ⟨e, h⟩
      rw [loadFile_of_reaches h, lines_unopened]
  unopened e h := by
    rw [loadFile_of_reaches h, Stage.run]
  unread_iff := by
    constructor
    · intro h
      obtain ⟨stage, hs, hr⟩ := exists_stage count fs path
      rw [hr] at h
      cases stage with
      | unopened e => simp [lines_unopened] at h
      | unread e => exact ⟨e, hs⟩
      | read content text => simp [lines_read] at h
    · rintro ⟨e, h⟩
      rw [loadFile_of_reaches h, lines_unread]
  unread e h := by
    rw [loadFile_of_reaches h, Stage.run]
  read_iff := by
    obtain ⟨stage, hs, hr⟩ := exists_stage count fs path
    rw [hr]
    constructor
    · rintro ⟨size, h⟩
      cases stage with
      | unopened e => simp [lines_unopened] at h
      | unread e => simp [lines_unread] at h
      | read content text => exact tellsOfText_loadText count text
    · intro h
      obtain ⟨content, text, rfl⟩ := exists_read_of_tellsOfText h
      exact ⟨content.length, lines_read⟩
  read h := by
    obtain ⟨stage, hs, hr⟩ := exists_stage count fs path
    rw [hr] at h ⊢
    obtain ⟨content, text, rfl⟩ := exists_read_of_tellsOfText h
    exact ⟨content, text, hs, lines_read, rfl⟩
  stepwise := LoadStep.run_loadFile count path fs

/-- Paths to nothing, through a file, to the root, to bytes that encode no text and to a text. -/
theorem loadFile_logTells_small :
    (loadFile 1 (.single "a" "x") "b").result = .error (.fileNotFound "b") ∧
    (loadFile 1 (.single "a" "x") "a/").result = .error (.io (.fault .notADirectory)) ∧
    (loadFile 1 (.single "a" "x") "/").result = .error (.io (.fault .isADirectory)) ∧
    (loadFile 1 ((FileSystem.single "a" "x").put ["a"] (.file [0xff])) "a").result =
      .error (.io .invalidText) ∧
    ∃ size : Nat, (loadFile 1 (.single "a" "x") "a").log.map LogEvent.line =
      ["DEBUG Loading weights from a", s!"DEBUG Read {size} bytes of weight text"] := by
  have hb : (FileSystem.single "a" "x").openRead "b" = .error (.fault .notFound) := by
    decide +kernel
  have hs : (FileSystem.single "a" "x").openRead "a/" = .error (.fault .notADirectory) := by
    decide +kernel
  have hr : (FileSystem.single "a" "x").openRead "/" = .ok [] := by decide +kernel
  have ha : ((FileSystem.single "a" "x").put ["a"] (.file [0xff])).openRead "a" = .ok ["a"] := by
    decide +kernel
  have hm : ¬ ∃ text, EncodesText [0xff] text :=
    not_encodesText_iff.mpr ⟨[], "", [0xff], rfl, .nil, .noLead (by decide) []⟩
  have hx : (loadFile 1 (.single "a" "x") "a").result = .error (.badToken 0 "x") := by
    decide +kernel
  exact ⟨(loadFile_logTells 1 _ "b").unopened _ (.unopened hb),
    (loadFile_logTells 1 _ "a/").unopened _ (.unopened hs),
    (loadFile_logTells 1 _ "/").unread _ (.directory hr rfl),
    (loadFile_logTells 1 _ "a").unread _ (.malformed ha rfl hm),
    (loadFile_logTells 1 _ "a").read_iff.mpr (hx ▸ .badToken 0 "x")⟩

end WeightTables
