import WeightTables.Proofs.Export.Build
import WeightTables.Proofs.Table.NumericBounds
import WeightTables.Registry
import Mathlib.Data.List.Nodup

/-! The tables of the two builds. A table is found by its own name and by no other. Both builds have
the same names and lengths, and differ in the values: those of a build for synthesis are all zero,
those of any other build are the exported ones, of which none is zero. -/

namespace WeightTables

theorem BuildMode.name_injective : Function.Injective BuildMode.name := by
  intro a b h
  cases a <;> cases b <;> first | rfl | exact absurd h (by decide)

variable {mode : BuildMode} {name : String} {t : Table} {w : Weight}

theorem exportedBiases_loaded : loadText biasCount biasText = .ok exportedBiases ∧
    exportedBiases.length = biasCount ∧ ∀ w ∈ exportedBiases, ¬ w.IsZero := by
  obtain ⟨ws, hl, hn, hz⟩ := loadText_biasText
  have he : exportedBiases = ws := by
    rw [exportedBiases, hl]
    rfl
  rw [he]
  exact ⟨hl, hn, hz⟩

theorem length_biases (mode : BuildMode) : (biases mode).length = biasCount := by
  cases mode with
  | simulation => exact exportedBiases_loaded.2.1
  | synthesis => exact List.length_replicate

theorem isFinite_of_mem_biases (h : w ∈ biases mode) : w.IsFinite := by
  cases mode with
  | simulation => exact isFinite_of_loadText exportedBiases_loaded.1 w h
  | synthesis =>
    rw [List.eq_of_mem_replicate h]
    decide

theorem isFinite_of_mem_tables (h : t ∈ tables mode) (hw : w ∈ t.values) : w.IsFinite := by
  rw [List.mem_singleton.mp h] at hw
  exact isFinite_of_mem_biases hw

theorem isZero_iff_of_mem_biases (h : w ∈ biases mode) : w.IsZero ↔ mode.populated = false := by
  cases mode with
  | simulation => exact iff_of_false (exportedBiases_loaded.2.2 w h) (by decide)
  | synthesis =>
    rw [List.eq_of_mem_replicate h]
    decide

theorem names_ascending (mode : BuildMode) : ((tables mode).map Table.name).Pairwise (· < ·) :=
  List.pairwise_singleton _ _

theorem names_eq (mode mode' : BuildMode) :
    (tables mode).map Table.name = (tables mode').map Table.name := rfl

theorem length_of_mem_tables (h : t ∈ tables mode) : t.length = biasCount := by
  rw [List.mem_singleton.mp h]
  exact length_biases mode

theorem mem_tables_of_lookup? (h : lookup? mode name = some t) :
    t ∈ tables mode ∧ t.name = name := by
  unfold lookup? at h
  have hn : (t.name == name) = true := by simpa using List.find?_some h
  exact ⟨List.mem_of_find?_eq_some h, eq_of_beq hn⟩

/-- Ascending names are distinct, so the first table of a name is the only one. -/
theorem lookup?_eq_some_iff : lookup? mode name = some t ↔ t ∈ tables mode ∧ t.name = name := by
  refine ⟨mem_tables_of_lookup?, ?_⟩
  rintro ⟨hm, rfl⟩
  have hn : ((tables mode).map Table.name).Nodup := by
    refine List.Pairwise.imp ?_ (names_ascending mode)
    rintro a _ hlt rfl
    exact String.lt_irrefl a hlt
  obtain ⟨u, hu⟩ : ∃ u, lookup? mode t.name = some u :=
    Option.isSome_iff_exists.mp (List.find?_isSome.mpr ⟨t, hm, beq_self_eq_true _⟩)
  obtain ⟨hum, hut⟩ := mem_tables_of_lookup? hu
  rw [hu, List.inj_on_of_nodup_map hn hum hm hut]

theorem lookup?_isSome_iff : (lookup? mode name).isSome ↔ name ∈ (tables mode).map Table.name := by
  simp only [Option.isSome_iff_exists, lookup?_eq_some_iff, List.mem_map]

theorem lookup?_eq_none_congr (mode mode' : BuildMode) (name : String) :
    lookup? mode name = none ↔ lookup? mode' name = none := by
  rw [← Option.not_isSome_iff_eq_none, ← Option.not_isSome_iff_eq_none, lookup?_isSome_iff,
    lookup?_isSome_iff, names_eq mode mode']

/-- The build decides what is in a table, not whether there is one and how long it is. -/
theorem lookup?_alike (h : lookup? mode name = some t) (mode' : BuildMode) :
    ∃ u, lookup? mode' name = some u ∧ u.name = t.name ∧ u.length = t.length := by
  have hs : (lookup? mode' name).isSome := by
    rw [lookup?_isSome_iff, names_eq mode' mode, ← lookup?_isSome_iff, h]
    rfl
  obtain ⟨u, hu⟩ := Option.isSome_iff_exists.mp hs
  obtain ⟨ht, htn⟩ := lookup?_eq_some_iff.mp h
  obtain ⟨hu', hun⟩ := lookup?_eq_some_iff.mp hu
  exact ⟨u, hu, hun.trans htn.symm, by rw [length_of_mem_tables hu', length_of_mem_tables ht]⟩

/-- A build that exports the biases puts the values of the registered table in its directory. -/
theorem build_exports_biases {env : Environment} {project directory : String} {fs : FileSystem}
    {opened : FileSystem × Location} (hs : env.synthesis = none)
    (hd : env.outputDirectory = some directory)
    (hr : fs.readText (env.weightFile project) = .ok biasText)
    (hc : fs.create (joinPath directory "b4.rs") = .ok opened) :
    (build env project fs).result = .ok () ∧
      ∃ text, (build env project fs).files.readText (joinPath directory "b4.rs") = .ok text ∧
        weightsOfArray? text = some (biases .simulation) := by
  have hl : (loadFile 256 fs (env.weightFile project)).result = .ok (biases .simulation) :=
    (loadFile_of_readText hr).trans exportedBiases_loaded.1
  have he := (ending_exportBiases fs (env.weightFile project) (some directory)).exports
  rw [build_of_simulation hs, hd]
  exact he.reads_back hl hc

end WeightTables
