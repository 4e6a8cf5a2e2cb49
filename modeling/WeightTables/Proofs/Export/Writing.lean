import WeightTables.Export.Writing
import WeightTables.Proofs.FileSystem

/-! Writing an array text is all or nothing. A failure leaves every file as it was, and a success
changes the target alone, which then holds the array text and nothing else. -/

namespace WeightTables

variable {fs : FileSystem} {source target table : String} {count : Nat}

theorem exportedText_eq_ok :
    exportedText fs source count = .ok table ↔
      ∃ text, fs.readText source = .ok text ∧ arrayText text count = .ok table := by
  simp only [exportedText, bind_eq_ok, mapError_eq_ok]

theorem writeTable_of_error {e : ExportError} (h : exportedText fs source count = .error e) :
    writeTable fs source count target = (fs, .error e) := by
  rw [writeTable, h]

theorem writeTable_of_uncreatable {e : IoError} (h : exportedText fs source count = .ok table)
    (hc : fs.create target = .error e) :
    writeTable fs source count target = (fs, .error (.uncreatable e)) := by
  simp only [writeTable, h, hc]

theorem writeTable_of_created {opened : FileSystem} {here : Location}
    (h : exportedText fs source count = .ok table) (hc : fs.create target = .ok (opened, here)) :
    writeTable fs source count target = (fs.put here (.file (bytesOfText table)), .ok ()) := by
  simp only [writeTable, h, hc, FileSystem.write_of_create hc]

theorem writeTable_cases (fs : FileSystem) (source : String) (count : Nat) (target : String) :
    (∃ e, writeTable fs source count target = (fs, .error e)) ∨
      ∃ table opened here, exportedText fs source count = .ok table ∧
        fs.create target = .ok (opened, here) ∧
        writeTable fs source count target = (fs.put here (.file (bytesOfText table)), .ok ()) := by
  cases h : exportedText fs source count with
  | error e => exact .inl ⟨e, writeTable_of_error h⟩
  | ok table =>
    cases hc : fs.create target with
    | error e => exact .inl ⟨.uncreatable e, writeTable_of_uncreatable h hc⟩
    | ok opened => exact .inr ⟨table, opened.1, opened.2, rfl, rfl, writeTable_of_created h hc⟩

theorem writeTable_eq_ok (h : (writeTable fs source count target).2 = .ok ()) :
    ∃ table opened here, exportedText fs source count = .ok table ∧
      fs.create target = .ok (opened, here) ∧
      (writeTable fs source count target).1 = fs.put here (.file (bytesOfText table)) := by
  rcases writeTable_cases fs source count target with ⟨e, he⟩ | ⟨table, opened, here, hx, hc, he⟩
  · rw [he] at h
    exact absurd h (by simp)
  · exact ⟨table, opened, here, hx, hc, by rw [he]⟩

theorem exportedText_put {there here : Location} {content : Bytes}
    (hd : fs.entry? there ≠ some .directory) (hs : fs.openRead source = .ok here)
    (hne : here ≠ there) (h : exportedText fs source count = .ok table) :
    exportedText (fs.put there (.file content)) source count = .ok table := by
  obtain ⟨text, hr, ha⟩ := exportedText_eq_ok.mp h
  obtain ⟨here', ho, bytes, hb, ht⟩ := FileSystem.readText_eq_ok.mp hr
  have he : here' = here := Except.ok.inj (ho.symm.trans hs)
  rw [he] at hb
  refine exportedText_eq_ok.mpr ⟨text, ?_, ha⟩
  refine FileSystem.readText_eq_ok.mpr ⟨here, FileSystem.openRead_put hd hs, bytes, ?_, ht⟩
  rw [FileSystem.read_put_of_ne hne, hb]

theorem writeTable_unchanged {e : ExportError}
    (h : (writeTable fs source count target).2 = .error e) :
    (writeTable fs source count target).1 = fs := by
  rcases writeTable_cases fs source count target with ⟨_, he⟩ | ⟨_, _, _, _, _, he⟩
  · rw [he]
  · rw [he] at h
    exact absurd h (by simp)

theorem writeTable_succeeds_iff :
    (writeTable fs source count target).2 = .ok () ↔
      (∃ text table, fs.readText source = .ok text ∧ arrayText text count = .ok table) ∧
        ∃ opened, fs.create target = .ok opened := by
  constructor
  · intro h
    obtain ⟨table, opened, here, hx, hc, _⟩ := writeTable_eq_ok h
    obtain ⟨text, hr, ha⟩ := exportedText_eq_ok.mp hx
    exact ⟨⟨text, table, hr, ha⟩, (opened, here), hc⟩
  · rintro ⟨⟨text, table, hr, ha⟩, ⟨opened, here⟩, hc⟩
    rw [writeTable_of_created (exportedText_eq_ok.mpr ⟨text, hr, ha⟩) hc]

/-- All that a successful run leaves behind: the array text at the target, and nothing else that is
new. -/
structure Wrote (fs : FileSystem) (source : String) (count : Nat) (target : String)
    (after : FileSystem) (here : Location) : Prop where
  content : ∃ text table, fs.readText source = .ok text ∧ arrayText text count = .ok table ∧
    after.read here = .ok (bytesOfText table)
  opens : after.openRead target = .ok here
  replaced : fs.entry? here ≠ some .directory
  others : ∀ there ≠ here, after.entry? there = fs.entry? there
  workingDirectory : after.workingDirectory = fs.workingDirectory

theorem wrote_of_writeTable (h : (writeTable fs source count target).2 = .ok ()) :
    ∃ here, Wrote fs source count target (writeTable fs source count target).1 here := by
  obtain ⟨table, opened, here, hx, hc, he⟩ := writeTable_eq_ok h
  obtain ⟨text, hr, ha⟩ := exportedText_eq_ok.mp hx
  have hd := FileSystem.not_directory_of_create hc
  have hn := FileSystem.ne_nil_of_not_directory hd
  have hb := FileSystem.read_put_self fs hn (bytesOfText table)
  rw [he]
  exact ⟨here, ⟨text, table, hr, ha, hb⟩, FileSystem.openRead_put_of_create hc _, hd,
    fun _ => FileSystem.entry?_put_of_ne, rfl⟩

theorem writeTable_again (h : (writeTable fs source count target).2 = .ok ())
    (hdiff : (writeTable fs source count target).1.openRead source ≠
      (writeTable fs source count target).1.openRead target) :
    writeTable (writeTable fs source count target).1 source count target =
      ((writeTable fs source count target).1, .ok ()) := by
  obtain ⟨table, opened, here, hx, hc, he⟩ := writeTable_eq_ok h
  obtain ⟨text, hr, _⟩ := exportedText_eq_ok.mp hx
  obtain ⟨there, hs, _⟩ := FileSystem.readText_eq_ok.mp hr
  have hd := FileSystem.not_directory_of_create hc
  rw [he, FileSystem.openRead_put hd hs, FileSystem.openRead_put_of_create hc] at hdiff
  have hne : there ≠ here := fun hh => hdiff (hh ▸ rfl)
  have hc' := FileSystem.create_put hc (bytesOfText table)
  rw [he, writeTable_of_created (exportedText_put hd hs hne hx) hc', FileSystem.put_put]

structure AllOrNothing (fs : FileSystem) (source : String) (count : Nat) (target : String)
    (after : FileSystem) (result : Except ExportError Unit) : Prop where
  unchanged : ∀ e, result = .error e → after = fs
  succeeds : result = .ok () ↔
    (∃ text table, fs.readText source = .ok text ∧ arrayText text count = .ok table) ∧
      ∃ opened, fs.create target = .ok opened
  wrote : result = .ok () → ∃ here, Wrote fs source count target after here
  again : result = .ok () → after.openRead source ≠ after.openRead target →
    writeTable after source count target = (after, .ok ())

theorem writeTable_allOrNothing (fs : FileSystem) (source : String) (count : Nat)
    (target : String) :
    AllOrNothing fs source count target (writeTable fs source count target).1
      (writeTable fs source count target).2 where
  unchanged _ := writeTable_unchanged
  succeeds := writeTable_succeeds_iff
  wrote := wrote_of_writeTable
  again := writeTable_again

theorem writeTable_allOrNothing_small :
    writeTable (writeTable (.single "w.txt" "1.5, -2") "w.txt" 2 "b.rs").1 "w.txt" 2 "b.rs" =
      ((writeTable (.single "w.txt" "1.5, -2") "w.txt" 2 "b.rs").1, .ok ()) :=
  (writeTable_allOrNothing _ "w.txt" 2 "b.rs").again (by decide +kernel) (by decide +kernel)

end WeightTables
