import WeightTables.Export.Build
import WeightTables.Proofs.BiasText
import WeightTables.Proofs.Export.ArrayReading
import WeightTables.Proofs.Export.Refinement

/-! Build runs. What a run announces depends on the path of its weight file alone. A run for
synthesis does nothing else, so it cannot tell one file system from another. Any other run exports
the table that loads from the weight file, or it fails as the first of its steps that does. -/

namespace WeightTables

/-- A relative path as seen from a directory: its names come after those of the directory. -/
structure Joins (base path joined : String) : Prop where
  text : joined = joinPath base path
  absolute : (Path.ofString joined).absolute = (Path.ofString base).absolute
  names : (Path.ofString joined).names = (Path.ofString base).names ++ (Path.ofString path).names

theorem names_append_slash (base path : String) :
    (Path.ofString (base ++ "/" ++ path)).names =
      (Path.ofString base).names ++ (Path.ofString path).names := by
  have hs : (base ++ "/" ++ path).toList = base.toList ++ '/' :: path.toList := by simp
  have hr := @runs_append_cons (· = '/') _ '/' rfl base.toList path.toList
  simp only [Path.ofString, hs, hr, List.map_append]

theorem absolute_append {base : String} (h : base ≠ "") (path : String) :
    (Path.ofString (base ++ path)).absolute = (Path.ofString base).absolute := by
  have hne : base.toList ≠ [] := by simpa using h
  obtain ⟨c, cs, hc⟩ := List.exists_cons_of_ne_nil hne
  simp [Path.ofString, hc]

theorem joins_joinPath {base path : String} (h : (Path.ofString path).absolute = false) :
    Joins base path (joinPath base path) := by
  have hp : path.toList.head? ≠ some '/' := by simpa [Path.ofString] using h
  by_cases hb : base = ""
  · have hj : joinPath base path = path := by simp [joinPath, hp, hb]
    refine ⟨rfl, ?_, ?_⟩
    · rw [hj, h, hb]
      rfl
    · rw [hj, hb]
      rfl
  · by_cases hl : base.toList.getLast? = some '/'
    · have hj : joinPath base path = base ++ path := by simp [joinPath, hp, hl]
      obtain ⟨cs, hc⟩ := List.getLast?_eq_some_iff.mp hl
      have he : base = String.ofList cs ++ "/" := by simp [← String.toList_inj, hc]
      refine ⟨rfl, by rw [hj, absolute_append hb], ?_⟩
      have hn := names_append_slash (String.ofList cs) ""
      rw [String.append_empty, ← he] at hn
      rw [hj, hn, he, names_append_slash]
      simp [Path.ofString, runs, stretches]
    · have hj : joinPath base path = base ++ "/" ++ path := by simp [joinPath, hp, hb, hl]
      refine ⟨rfl, ?_, by rw [hj, names_append_slash]⟩
      rw [hj, String.append_assoc, absolute_append hb]

/-- The weight file that belongs to the setting of a build in a project's directory. -/
inductive NamesWeightFile (project : String) : Option String → String → Prop
  | absolute {path : String} (h : (Path.ofString path).absolute) :
    NamesWeightFile project (some path) path
  | relative {path joined : String} (h : (Path.ofString path).absolute = false)
    (hj : Joins project path joined) : NamesWeightFile project (some path) joined
  | unset {joined : String} (hj : Joins project "weights/b4.txt" joined) :
    NamesWeightFile project none joined

theorem exportedText_loadFile_cases {count : Nat} (hc : count ≤ literalCapacity) (fs : FileSystem)
    (source : String) :
    (∃ ws, (loadFile count fs source).result = .ok ws ∧ ws.length = count ∧
        (∀ w ∈ ws, w.IsFinite) ∧
        exportedText fs source count = .ok (layOut (ws.map Weight.literal))) ∨
      ∃ e x, (loadFile count fs source).result = .error e ∧
        exportedText fs source count = .error x ∧ e.exportMessage? source = some x.message := by
  cases hx : exportedText fs source count with
  | ok table =>
    obtain ⟨text, hr, ha⟩ := exportedText_eq_ok.mp hx
    obtain ⟨_, ws, hw, hl, rfl⟩ := standFor_of_arrayText ha
    refine .inl ⟨ws, ?_, hl, isFinite_of_standFor hw, rfl⟩
    rw [loadFile_of_readText hr, loadText_of_standFor hw, if_pos hl]
  | error x =>
    have hf : FaresAlike source count (exportedText fs source count)
        (loadFile count fs source).result := faresAlike_of_le hc fs source
    rw [hx] at hf
    generalize (loadFile count fs source).result = loaded at hf
    cases hf with
    | refused _ hm => exact .inr ⟨_, x, rfl, rfl, hm⟩

section

variable {fs after : FileSystem} {source : String} {directory? : Option String}
  {result : Except BuildError Unit}

/-- How an export to a directory may end. -/
inductive Ending (fs : FileSystem) (source : String) :
    Option String → FileSystem → Except BuildError Unit → Prop
  | noDirectory : Ending fs source none fs (.error .noOutputDirectory)
  | notLoaded {directory : String} {e : LoadError} {x : ExportError}
    (hl : (loadFile 256 fs source).result = .error e)
    (hm : e.exportMessage? source = some x.message) :
    Ending fs source (some directory) fs (.error (.failedExport x))
  | notCreated {directory : String} {values : List Weight} {e : IoError}
    (hl : (loadFile 256 fs source).result = .ok values)
    (hc : fs.create (joinPath directory "b4.rs") = .error e) :
    Ending fs source (some directory) fs (.error (.failedExport (.uncreatable e)))
  | exported {directory : String} {values : List Weight} {opened : FileSystem} {here : Location}
    (hl : (loadFile 256 fs source).result = .ok values) (hn : values.length = 256)
    (hf : ∀ w ∈ values, w.IsFinite)
    (hc : fs.create (joinPath directory "b4.rs") = .ok (opened, here)) :
    Ending fs source (some directory)
      (fs.put here (.file (bytesOfText (layOut (values.map Weight.literal))))) (.ok ())

theorem ending_exportBiases (fs : FileSystem) (source : String) (directory? : Option String) :
    Ending fs source directory? (exportBiases fs source directory?).1
      (exportBiases fs source directory?).2 := by
  cases directory? with
  | none => exact .noDirectory
  | some directory =>
    have he : exportBiases fs source (some directory) =
      ((writeTable fs source 256 (joinPath directory "b4.rs")).1,
        (writeTable fs source 256 (joinPath directory "b4.rs")).2.mapError .failedExport) := rfl
    have hcap : 256 ≤ literalCapacity := by decide
    rw [he]
    rcases exportedText_loadFile_cases hcap fs source with
      ⟨ws, hl, hn, hf, hx⟩ | ⟨e, x, hl, hx, hm⟩
    · cases hc : fs.create (joinPath directory "b4.rs") with
      | error e =>
        rw [writeTable_of_uncreatable hx hc]
        exact .notCreated hl hc
      | ok opened =>
        rw [writeTable_of_created hx hc]
        exact .exported hl hn hf hc
    · rw [writeTable_of_error hx]
      exact .notLoaded hl hm

/-- What the first step that fails decides, and what is in the target if none does. -/
structure Exports (fs : FileSystem) (source : String) (directory? : Option String)
    (after : FileSystem) (result : Except BuildError Unit) : Prop where
  fails_iff : (∃ x, result = .error x) ↔
    directory? = none ∨ (∃ e, (loadFile 256 fs source).result = .error e) ∨
      ∃ directory e, directory? = some directory ∧
        fs.create (joinPath directory "b4.rs") = .error e
  unchanged : ∀ x, result = .error x → after = fs
  noDirectory : directory? = none → ∃ x, result = .error x ∧
    x.message = "called `Result::unwrap()` on an `Err` value: NotPresent"
  notLoaded : ∀ directory e, directory? = some directory →
    (loadFile 256 fs source).result = .error e →
      ∃ x, result = .error x ∧ e.exportMessage? source = some x.message
  notCreated : ∀ directory values e, directory? = some directory →
    (loadFile 256 fs source).result = .ok values →
      fs.create (joinPath directory "b4.rs") = .error e →
        ∃ x, result = .error x ∧
          x.message = "called `Result::unwrap()` on an `Err` value: " ++ e.dump
  exported : result = .ok () → ∃ directory values text, directory? = some directory ∧
    (loadFile 256 fs source).result = .ok values ∧ values.length = 256 ∧
      after.readText (joinPath directory "b4.rs") = .ok text ∧
        weightsOfArray? text = some values

theorem Ending.fails_iff (h : Ending fs source directory? after result) :
    (∃ x, result = .error x) ↔
      directory? = none ∨ (∃ e, (loadFile 256 fs source).result = .error e) ∨
        ∃ directory e, directory? = some directory ∧
          fs.create (joinPath directory "b4.rs") = .error e := by
  cases h with
  | noDirectory => simp
  | notLoaded hl hm => simp [hl]
  | notCreated hl hc => simp [hc]
  | exported hl hn hf hc => simp [hl, hc]

theorem Ending.exported_reads (h : Ending fs source directory? after (.ok ())) :
    ∃ directory values text, directory? = some directory ∧
      (loadFile 256 fs source).result = .ok values ∧ values.length = 256 ∧
        after.readText (joinPath directory "b4.rs") = .ok text ∧
          weightsOfArray? text = some values := by
  cases h with
  | @exported directory values opened here hl hn hf hc =>
    have ho := FileSystem.openRead_put_of_create hc
      (bytesOfText (layOut (values.map Weight.literal)))
    have hr := FileSystem.read_put_self fs
      (FileSystem.ne_nil_of_not_directory (FileSystem.not_directory_of_create hc))
      (bytesOfText (layOut (values.map Weight.literal)))
    exact ⟨directory, values, layOut (values.map Weight.literal), rfl, hl, hn,
      FileSystem.readText_eq_ok.mpr ⟨here, ho, _, hr, decodeText_bytesOfText _⟩,
      weightsOfArray?_layOut hf⟩

theorem Ending.exports (h : Ending fs source directory? after result) :
    Exports fs source directory? after result where
  fails_iff := h.fails_iff
  unchanged x hx := by
    cases h with
    | exported => exact absurd hx (by simp)
    | _ => rfl
  noDirectory hd := by
    cases h with
    | noDirectory => exact ⟨_, rfl, rfl⟩
    | _ => exact absurd hd (by simp)
  notLoaded directory e hd hl := by
    cases h with
    | noDirectory => exact absurd hd (by simp)
    | notLoaded hl' hm => exact ⟨_, rfl, Except.error.inj (hl.symm.trans hl') ▸ hm⟩
    | notCreated hl' _ => exact absurd (hl.symm.trans hl') (by simp)
    | exported hl' _ _ _ => exact absurd (hl.symm.trans hl') (by simp)
  notCreated directory values e hd hl hc := by
    cases h with
    | noDirectory => exact absurd hd (by simp)
    | notLoaded hl' _ => exact absurd (hl.symm.trans hl') (by simp)
    | notCreated _ hc' =>
      rw [Option.some.inj hd] at hc'
      exact ⟨_, rfl, by rw [Except.error.inj (hc.symm.trans hc')]; rfl⟩
    | exported _ _ _ hc' =>
      rw [Option.some.inj hd] at hc'
      exact absurd (hc.symm.trans hc') (by simp)
  exported hr := (hr ▸ h).exported_reads

theorem Exports.reads_back {directory : String} {values : List Weight}
    {opened : FileSystem × Location} (h : Exports fs source (some directory) after result)
    (hl : (loadFile 256 fs source).result = .ok values)
    (hc : fs.create (joinPath directory "b4.rs") = .ok opened) :
    result = .ok () ∧ ∃ text, after.readText (joinPath directory "b4.rs") = .ok text ∧
      weightsOfArray? text = some values := by
  have hok : result = .ok () := by
    cases hr : result with
    | ok => rfl
    | error x =>
      rcases h.fails_iff.mp ⟨x, hr⟩ with hd | ⟨e, he⟩ | ⟨_, e, hd, he⟩
      · exact absurd hd (by simp)
      · exact absurd (hl.symm.trans he) (by simp)
      · rw [← Option.some.inj hd] at he
        exact absurd (hc.symm.trans he) (by simp)
  obtain ⟨_, vs, text, hd, hv, _, ht, ha⟩ := h.exported hok
  rw [← Option.some.inj hd] at ht
  rw [Except.ok.inj (hl.symm.trans hv)]
  exact ⟨hok, text, ht, ha⟩

end

/-- What a build run does, given the weight file that it names. -/
structure BuildContract (env : Environment) (project : String) (fs : FileSystem) (source : String)
    (run : BuildRun) : Prop where
  names : NamesWeightFile project env.weights source
  announces : run.printed =
    "cargo:rerun-if-env-changed=B4_WEIGHTS\ncargo:rerun-if-changed=" ++ source ++
      "\ncargo:rerun-if-changed=build/codegen.rs\ncargo:rerun-if-changed=src/text.rs\n"
  announcesAlike : ∀ other project' fs', other.weightFile project' = source →
    (build other project' fs').printed = run.printed
  idle : env.synthesis.isSome → run.result = .ok () ∧ run.files = fs
  isolated : env.synthesis.isSome → ∀ other fs', other.synthesis.isSome →
    other.weights = env.weights → (build other project fs').printed = run.printed ∧
      (build other project fs').result = run.result
  exports : env.synthesis = none → Exports fs source env.outputDirectory run.files run.result

section

variable {env : Environment} {project : String} {fs : FileSystem}

theorem namesWeightFile (env : Environment) (project : String) :
    NamesWeightFile project env.weights (env.weightFile project) := by
  have hb : (Path.ofString "weights/b4.txt").absolute = false := rfl
  unfold Environment.weightFile
  cases env.weights with
  | none => exact .unset (joins_joinPath hb)
  | some path =>
    cases hp : (Path.ofString path).absolute with
    | false => exact .relative hp (joins_joinPath hp)
    | true =>
      have hj : joinPath project path = path := if_pos (by simpa [Path.ofString] using hp)
      rw [Option.getD_some, hj]
      exact .absolute hp

theorem printed_build (env : Environment) (project : String) (fs : FileSystem) :
    (build env project fs).printed = announcement (env.weightFile project) := rfl

theorem announcement_eq (source : String) : announcement source =
    "cargo:rerun-if-env-changed=B4_WEIGHTS\ncargo:rerun-if-changed=" ++ source ++
      "\ncargo:rerun-if-changed=build/codegen.rs\ncargo:rerun-if-changed=src/text.rs\n" := by
  simp [announcement, directives, ← String.toList_inj]

theorem build_of_synthesis (h : env.synthesis.isSome) (project : String) (fs : FileSystem) :
    build env project fs = ⟨announcement (env.weightFile project), fs, .ok ()⟩ := by
  simp only [build, h, if_true]

theorem build_of_simulation (h : env.synthesis = none) (project : String) (fs : FileSystem) :
    build env project fs = ⟨announcement (env.weightFile project),
      (exportBiases fs (env.weightFile project) env.outputDirectory).1,
      (exportBiases fs (env.weightFile project) env.outputDirectory).2⟩ := by
  simp only [build, h, Option.isSome_none, Bool.false_eq_true, if_false]

end

theorem build_contract (env : Environment) (project : String) (fs : FileSystem) :
    BuildContract env project fs (env.weightFile project) (build env project fs) where
  names := namesWeightFile env project
  announces := announcement_eq (env.weightFile project)
  announcesAlike other project' fs' h := by
    rw [printed_build, printed_build, h]
  idle h := by
    rw [build_of_synthesis h]
    exact ⟨rfl, rfl⟩
  isolated h other fs' h' hw := by
    have hp : other.weightFile project = env.weightFile project := by
      rw [Environment.weightFile, Environment.weightFile, hw]
    rw [build_of_synthesis h, build_of_synthesis h', hp]
    exact ⟨rfl, rfl⟩
  exports h := by
    rw [build_of_simulation h]
    exact (ending_exportBiases fs _ _).exports

/-- A weight file with a single weight, a build for synthesis that has no output directory, and the
biases of the fourth layer as the weight file. -/
theorem build_contract_small :
    (∃ x, (build ⟨some "w.txt", some "/", none⟩ "/" (.single "w.txt" "1.5")).result = .error x ∧
      (LoadError.wrongCount 256 1).exportMessage? "/w.txt" = some x.message) ∧
    (build ⟨some "w.txt", none, some ""⟩ "/" (.single "w.txt" "1.5")).result = .ok () ∧
    ∃ values text, loadText 256 biasText = .ok values ∧
      (build ⟨some "w.txt", some "/", none⟩ "/" (.single "w.txt" biasText)).result = .ok () ∧
      (build ⟨some "w.txt", some "/", none⟩ "/" (.single "w.txt" biasText)).files.readText
        "/b4.rs" = .ok text ∧ weightsOfArray? text = some values := by
  refine ⟨?_, ?_, ?_⟩
  · exact ((build_contract ⟨some "w.txt", some "/", none⟩ "/" _).exports rfl).notLoaded "/"
      (.wrongCount 256 1) rfl (by decide +kernel)
  · exact ((build_contract ⟨some "w.txt", none, some ""⟩ "/" _).idle rfl).1
  · obtain ⟨values, hl, _⟩ := loadText_biasText
    have hr : (FileSystem.single "w.txt" biasText).readText "/w.txt" = .ok biasText :=
      FileSystem.readText_eq_ok.mpr ⟨["w.txt"], rfl, _, rfl, decodeText_bytesOfText biasText⟩
    have hx :=
      (build_contract ⟨some "w.txt", some "/", none⟩ "/" (.single "w.txt" biasText)).exports rfl
    obtain ⟨hok, text, ht, ha⟩ := hx.reads_back ((loadFile_of_readText hr).trans hl) rfl
    exact ⟨values, text, hl, hok, ht, ha⟩

end WeightTables
