import WeightTables.Proofs.Export.Diagnosis
import WeightTables.Proofs.Export.Writing
import WeightTables.Proofs.Stream

/-! Writing an array text and loading the same file. Where the load succeeds, the target receives a
text that loads as the same table, and where it fails, the export fails with the wording that
belongs to what the load reports. This holds for every count that a table can have. -/

namespace WeightTables

/-- The wording with which an export fails where the load of its source fails. -/
def LoadError.exportMessage? (source : String) : LoadError → Option String
  | fileNotFound _ =>
    some s!"Failed to read weights from {source}: No such file or directory (os error 2)"
  | io e => some s!"Failed to read weights from {source}: {e.message}"
  | badToken i t => some s!"{source}: token {i} ({quote t}) is not a decimal value"
  | wrongCount expected found => some s!"{source}: expected {expected} values, found {found}"
  | wrongByteCount _ _ => none

/-- The source has been read and checked, whether or not the target could be created. -/
def ExportPassed : Except ExportError Unit → Prop
  | .ok () => True
  | .error (.uncreatable _) => True
  | .error _ => False

structure MirrorsLoad (fs : FileSystem) (source : String) (count : Nat) (target : String) :
    Prop where
  passes : ExportPassed (writeTable fs source count target).2 ↔
    ∃ values, (loadFile count fs source).result = .ok values
  content : ∀ values opened, (loadFile count fs source).result = .ok values →
    fs.create target = .ok opened →
      (writeTable fs source count target).2 = .ok () ∧
        ∃ table, (writeTable fs source count target).1.readText target = .ok table ∧
          ∀ stream : Stream, stream.content = .ok (bytesOfText (withoutBrackets table)) →
            (loadStream count stream).result = .ok values
  refuses : ∀ e, (loadFile count fs source).result = .error e →
    ∃ x, (writeTable fs source count target).2 = .error x ∧
      e.exportMessage? source = some x.message

theorem message_notFound :
    (IoError.fault .notFound).message = "No such file or directory (os error 2)" := rfl

theorem message_unreadable (source : String) (e : IoError) :
    (ExportError.unreadable source e).message =
      "Failed to read weights from " ++ source ++ ": " ++ e.message := rfl

theorem message_noArrayText {e : ArrayError} (h : e ≠ .capacityOverflow) (source : String) :
    (ExportError.noArrayText source e).message = source ++ ": " ++ e.message := by
  cases e with
  | capacityOverflow => exact absurd rfl h
  | badToken i t => rfl
  | wrongCount e f => rfl

namespace LoadError

theorem exportMessage?_fileNotFound (source : String) :
    (fileNotFound source).exportMessage? source =
      some (ExportError.unreadable source (.fault .notFound)).message := by
  simp [exportMessage?, message_unreadable, message_notFound, ← String.toList_inj]

theorem exportMessage?_badToken (source : String) (i : Nat) (t : String) :
    (badToken i t).exportMessage? source =
      some (ExportError.noArrayText source (.badToken i t)).message := by
  simp [exportMessage?, message_noArrayText, ArrayError.message, ← String.toList_inj]

theorem exportMessage?_wrongCount (source : String) (e f : Nat) :
    (wrongCount e f).exportMessage? source =
      some (ExportError.noArrayText source (.wrongCount e f)).message := by
  simp [exportMessage?, message_noArrayText, ArrayError.message, ← String.toList_inj]

end LoadError

variable {fs : FileSystem} {source target text table : String} {count : Nat}

theorem exportedText_of_readText (h : fs.readText source = .ok text) :
    exportedText fs source count = (arrayText text count).mapError (.noArrayText source) := by
  rw [exportedText, h]
  rfl

theorem exportedText_of_unreadable {e : IoError} (h : fs.readText source = .error e) :
    exportedText fs source count = .error (.unreadable source e) := by
  rw [exportedText, h]
  rfl

/-- How a source fares that is read and checked for an array text, beside how it fares in a load. -/
inductive FaresAlike (source : String) (count : Nat) :
    Except ExportError String → Except LoadError (List Weight) → Prop
  | passed {table : String} {values : List Weight}
    (h : loadText count (withoutBrackets table) = .ok values) :
    FaresAlike source count (.ok table) (.ok values)
  | refused {x : ExportError} {e : LoadError} (hp : ¬ ExportPassed (.error x))
    (hm : e.exportMessage? source = some x.message) : FaresAlike source count (.error x) (.error e)

theorem faresAlike_of_unreadable {e : IoError} (h : fs.readText source = .error e) :
    FaresAlike source count (exportedText fs source count) (loadFile count fs source).result := by
  rw [exportedText_of_unreadable h]
  rcases loadFile_of_unreadable h with ⟨hl, rfl⟩ | hl
  · rw [hl]
    exact .refused id (LoadError.exportMessage?_fileNotFound source)
  · rw [hl]
    exact .refused id rfl

theorem faresAlike_of_readText (h : fs.readText source = .ok text) (hc : count ≤ literalCapacity) :
    FaresAlike source count (exportedText fs source count) (loadFile count fs source).result := by
  rw [exportedText_of_readText h, loadFile_of_readText h]
  rcases arrayText_loadText_cases hc text with ⟨ws, hl, ha⟩ | ⟨i, t, hl, ha⟩ | ⟨k, hl, ha⟩
  · obtain ⟨_, vs, hw, hs, hn, _⟩ := standFor_withoutBrackets ha
    have hv : loadText count text = .ok vs := by rw [loadText_of_standFor hw, if_pos hn]
    rw [ha, hv]
    exact .passed (by rw [loadText_of_standFor hs, if_pos hn])
  · rw [ha, hl]
    exact .refused id (LoadError.exportMessage?_badToken source i t)
  · rw [ha, hl]
    exact .refused id (LoadError.exportMessage?_wrongCount source count k)

theorem faresAlike_of_le (h : count ≤ literalCapacity) (fs : FileSystem) (source : String) :
    FaresAlike source count (exportedText fs source count) (loadFile count fs source).result := by
  cases hr : fs.readText source with
  | error e => exact faresAlike_of_unreadable hr
  | ok text => exact faresAlike_of_readText hr h

theorem mirrorsLoad_of_passed {values : List Weight}
    (hx : exportedText fs source count = .ok table)
    (hl : (loadFile count fs source).result = .ok values)
    (hs : loadText count (withoutBrackets table) = .ok values) :
    MirrorsLoad fs source count target where
  passes := by
    have hw : ExportPassed (writeTable fs source count target).2 := by
      cases hc : fs.create target with
      | error e => simp only [writeTable_of_uncreatable hx hc, ExportPassed]
      | ok opened => simp only [writeTable_of_created hx hc, ExportPassed]
    exact ⟨fun _ => ⟨values, hl⟩, fun _ => hw⟩
  content := by
    intro vs opened hv hc
    have hvs : values = vs := Except.ok.inj (hl.symm.trans hv)
    have hn := FileSystem.ne_nil_of_not_directory (FileSystem.not_directory_of_create hc)
    rw [writeTable_of_created hx hc]
    refine ⟨rfl, table, ?_, fun stream hstream => ?_⟩
    · have ho := FileSystem.openRead_put_of_create hc (bytesOfText table)
      have hb := FileSystem.read_put_self fs hn (bytesOfText table)
      exact FileSystem.readText_eq_ok.mpr ⟨opened.2, ho, _, hb, decodeText_bytesOfText table⟩
    · rw [loadStream, hstream, loadContent_bytesOfText, hs, hvs]
  refuses e he := absurd (hl.symm.trans he) (by simp)

theorem mirrorsLoad_of_refused {x : ExportError} {e : LoadError}
    (hx : exportedText fs source count = .error x)
    (hl : (loadFile count fs source).result = .error e) (hp : ¬ ExportPassed (.error x))
    (hm : e.exportMessage? source = some x.message) : MirrorsLoad fs source count target := by
  have hw : writeTable fs source count target = (fs, .error x) := writeTable_of_error hx
  refine ⟨?_, fun vs _ hv => ?_, fun e' he => ⟨x, by rw [hw], ?_⟩⟩
  · simp [hw, hp, hl]
  · exact absurd (hl.symm.trans hv) (by simp)
  · rw [← Except.error.inj (hl.symm.trans he), hm]

theorem mirrorsLoad_of_faresAlike
    (h : FaresAlike source count (exportedText fs source count) (loadFile count fs source).result) :
    MirrorsLoad fs source count target := by
  generalize hx : exportedText fs source count = x at h
  generalize hl : (loadFile count fs source).result = l at h
  cases h with
  | passed hs => exact mirrorsLoad_of_passed hx hl hs
  | refused hp hm => exact mirrorsLoad_of_refused hx hl hp hm

/-- An export mirrors the load of its source, whatever the files and the two paths are. -/
theorem mirrorsLoad (h : TableFits count) (fs : FileSystem) (source target : String) :
    MirrorsLoad fs source count target :=
  mirrorsLoad_of_faresAlike (faresAlike_of_le h.le_literalCapacity fs source)

/-- A source that loads, and the same source for a table of another length. -/
theorem mirrorsLoad_small :
    (TableFits 2 ∧ ∃ table, (writeTable (.single "a.txt" "1.5, -2") "a.txt" 2 "b").1.readText "b" =
        .ok table ∧ (loadStream 2 [.piece (bytesOfText (withoutBrackets table))]).result =
          .ok [⟨0x3fc00000⟩, ⟨0xc0000000⟩]) ∧
      TableFits 3 ∧ ∃ x, (writeTable (.single "a.txt" "1.5, -2") "a.txt" 3 "b").2 = .error x ∧
        (LoadError.wrongCount 3 2).exportMessage? "a.txt" = some x.message := by
  have hf : TableFits 2 := by decide
  have hf' : TableFits 3 := by decide
  have hl : (loadFile 2 (.single "a.txt" "1.5, -2") "a.txt").result =
    .ok [⟨0x3fc00000⟩, ⟨0xc0000000⟩] := by decide +kernel
  have hl' : (loadFile 3 (.single "a.txt" "1.5, -2") "a.txt").result =
    .error (.wrongCount 3 2) := by decide +kernel
  obtain ⟨_, table, hr, hs⟩ := (mirrorsLoad hf _ "a.txt" "b").content _ _ hl rfl
  have hx := (mirrorsLoad hf' (.single "a.txt" "1.5, -2") "a.txt" "b").refuses _ hl'
  exact ⟨⟨hf, table, hr, hs _ (Stream.content_singleton _)⟩, hf', hx⟩

end WeightTables
