import WeightTables.FileSystem.Basic
import WeightTables.Proofs.Text.Tokens
import Mathlib.Data.List.Basic

/-! Files put into a file system, and paths followed afterwards. A path that led somewhere still
leads there, since only directories are passed on the way and no directory is ever replaced. What a
path leads to is there. -/

namespace WeightTables

section

variable {ε ε' α β : Type} {x : Except ε α} {f : α → Except ε β} {g : ε → ε'} {b : β}

@[simp] theorem pure_eq_ok (a : α) : (pure a : Except ε α) = .ok a := rfl

@[simp] theorem throw_eq_error (e : ε) : (throw e : Except ε α) = .error e := rfl

@[simp] theorem ok_bind (a : α) (f : α → Except ε β) : (Except.ok a >>= f) = f a := rfl

@[simp] theorem error_bind (e : ε) (f : α → Except ε β) : (Except.error e >>= f) = .error e := rfl

theorem bind_eq_ok : (x >>= f) = .ok b ↔ ∃ a, x = .ok a ∧ f a = .ok b := by
  cases x <;> simp

theorem mapError_eq_ok {a : α} : x.mapError g = .ok a ↔ x = .ok a := by
  cases x <;> simp [Except.mapError]

end

theorem decodeText_bytesOfText (s : String) : decodeText (bytesOfText s) = .ok s := by
  rw [decodeText, textOfBytes?_bytesOfText]

namespace FileSystem

/-- A root directory with one file in it. -/
def single (name text : String) : FileSystem where
  entries here := if here = [name] then some (.file (bytesOfText text)) else none
  workingDirectory := []

variable {fs : FileSystem} {here there target : Location} {name : String} {entry : Entry}
  {content : Bytes}

theorem entry?_put_of_ne (h : here ≠ target) :
    FileSystem.entry? (fs.put target entry) here = fs.entry? here := by
  simp [put, entry?, h]

theorem entry?_put_self (h : target ≠ []) :
    FileSystem.entry? (fs.put target entry) target = some entry := by
  simp [put, entry?, h]

theorem put_put (fs : FileSystem) (target : Location) (first second : Entry) :
    (fs.put target first).put target second = fs.put target second := by
  simp only [put, FileSystem.mk.injEq, and_true]
  funext there
  by_cases h : there = target <;> simp [h]

theorem ne_nil_of_not_directory (h : fs.entry? target ≠ some .directory) : target ≠ [] := by
  rintro rfl
  exact h rfl

theorem child_put (h : here ≠ target) :
    (fs.put target entry).child here name = fs.child here name := by
  simp only [child, entry?_put_of_ne h]

theorem directory_of_child (h : fs.child here name = .ok there) :
    fs.entry? here = some .directory := by
  by_contra hd
  simp [child, hd] at h

theorem step_eq_ok :
    fs.step here name = .ok there ↔ fs.child here name = .ok there ∧ (fs.entry? there).isSome := by
  rw [step, bind_eq_ok]
  constructor
  · rintro ⟨a, ha, h⟩
    by_cases hs : (fs.entry? a).isSome
    · have he : a = there := by simpa [hs] using h
      exact ⟨he ▸ ha, he ▸ hs⟩
    · simp [hs] at h
  · rintro ⟨hc, hs⟩
    exact ⟨there, hc, by simp [hs]⟩

section

variable (hd : fs.entry? target ≠ some .directory)

include hd

theorem step_put (h : fs.step here name = .ok there) :
    (fs.put target (.file content)).step here name = .ok there := by
  obtain ⟨hc, hs⟩ := step_eq_ok.mp h
  have hne : here ≠ target := fun he => hd (he ▸ directory_of_child hc)
  refine step_eq_ok.mpr ⟨(child_put hne).trans hc, ?_⟩
  by_cases ht : there = target
  · rw [ht, entry?_put_self (ne_nil_of_not_directory hd)]
    rfl
  · rw [entry?_put_of_ne ht]
    exact hs

theorem walk_put {names : List String} (h : fs.walk here names = .ok there) :
    (fs.put target (.file content)).walk here names = .ok there := by
  induction names generalizing here with
  | nil => exact h
  | cons name names ih =>
    rw [walk, List.foldlM_cons, bind_eq_ok] at h ⊢
    obtain ⟨next, hs, hw⟩ := h
    exact ⟨next, step_put hd hs, ih hw⟩

end

theorem locate_eq_ok {path : Path} :
    fs.locate path = .ok there ↔ fs.walk (fs.start path) path.names = .ok there ∧
      ¬ (path.directory ∧ fs.entry? there ≠ some .directory) := by
  rw [locate, bind_eq_ok]
  constructor
  · rintro ⟨a, ha, h⟩
    by_cases hp : path.directory ∧ fs.entry? a ≠ some .directory
    · simp [hp] at h
    · have he : a = there := by simpa [hp] using h
      exact he ▸ ⟨ha, hp⟩
  · rintro ⟨hw, hp⟩
    exact ⟨there, hw, by simp [hp]⟩

theorem place_eq_ok {path : Path} :
    fs.place path = .ok there ↔ ∃ here name,
      fs.walk (fs.start path) path.names.dropLast = .ok here ∧ path.names.getLast? = some name ∧
      path.directory = false ∧ fs.child here name = .ok there ∧
      fs.entry? there ≠ some .directory := by
  rw [place, bind_eq_ok]
  constructor
  · rintro ⟨here, hw, h⟩
    cases hl : path.names.getLast? with
    | none => simp [hl] at h
    | some name =>
      simp only [hl] at h
      by_cases hh : fs.entry? here = some .directory
      · by_cases hdir : path.directory
        · simp [hh, hdir] at h
        · cases hc : fs.child here name with
          | error e => simp [hh, hdir, hc] at h
          | ok a =>
            by_cases hd : fs.entry? a = some .directory
            · simp [hh, hdir, hc, hd] at h
            · have he : a = there := by simpa [hh, hdir, hc, hd] using h
              exact ⟨here, name, hw, rfl, by simpa using hdir, he ▸ hc, he ▸ hd⟩
      · simp [hh] at h
  · rintro ⟨here, name, hw, hl, hdir, hc, hd⟩
    have hh := directory_of_child hc
    exact ⟨here, hw, by simp [hl, hh, hdir, hd, hc]⟩

theorem locate_put {path : Path} (hd : fs.entry? target ≠ some .directory)
    (h : fs.locate path = .ok there) :
    (fs.put target (.file content)).locate path = .ok there := by
  obtain ⟨hw, hp⟩ := locate_eq_ok.mp h
  refine locate_eq_ok.mpr ⟨walk_put hd hw, ?_⟩
  by_cases ht : there = target
  · have hn : path.directory ≠ true := fun hdir => hp ⟨hdir, ht ▸ hd⟩
    exact fun hh => hn hh.1
  · rwa [entry?_put_of_ne ht]

theorem place_put {path : Path} (h : fs.place path = .ok there) :
    (fs.put there (.file content)).place path = .ok there := by
  obtain ⟨here, name, hw, hl, hdir, hc, hd⟩ := place_eq_ok.mp h
  have hne : here ≠ there := fun he => hd (he ▸ directory_of_child hc)
  refine place_eq_ok.mpr ⟨here, name, walk_put hd hw, hl, hdir, (child_put hne).trans hc, ?_⟩
  rw [entry?_put_self (ne_nil_of_not_directory hd)]
  simp

theorem locate_put_of_place {path : Path} (h : fs.place path = .ok there) :
    (fs.put there (.file content)).locate path = .ok there := by
  obtain ⟨here, name, hw, hl, hdir, hc, hd⟩ := place_eq_ok.mp h
  have hne : here ≠ there := fun he => hd (he ▸ directory_of_child hc)
  have hn : path.names = path.names.dropLast ++ [name] := (List.dropLast_append_getLast? _ hl).symm
  have hs : (fs.put there (.file content)).step here name = .ok there := by
    refine step_eq_ok.mpr ⟨(child_put hne).trans hc, ?_⟩
    rw [entry?_put_self (ne_nil_of_not_directory hd)]
    rfl
  refine locate_eq_ok.mpr ⟨?_, by simp [hdir]⟩
  rw [hn, walk, List.foldlM_append, bind_eq_ok]
  exact ⟨here, walk_put hd hw, by simp [hs]⟩

theorem openRead_eq_ok {p : String} :
    fs.openRead p = .ok there ↔ ∃ path, path? p = .ok path ∧ fs.locate path = .ok there := by
  simp only [openRead, bind_eq_ok, mapError_eq_ok]

theorem create_eq_ok {p : String} {opened : FileSystem} :
    fs.create p = .ok (opened, there) ↔ (∃ path, path? p = .ok path ∧ fs.place path = .ok there) ∧
      opened = fs.put there (.file []) := by
  simp only [create, bind_eq_ok, mapError_eq_ok, pure_eq_ok, Except.ok.injEq, Prod.mk.injEq]
  constructor
  · rintro ⟨path, hp, here, hh, he, rfl⟩
    exact ⟨⟨path, hp, hh⟩, he.symm⟩
  · rintro ⟨⟨path, hp, hh⟩, he⟩
    exact ⟨path, hp, there, hh, he.symm, rfl⟩

section

variable {p : String} {opened : FileSystem}

theorem not_directory_of_create (h : fs.create p = .ok (opened, there)) :
    fs.entry? there ≠ some .directory := by
  obtain ⟨⟨path, _, hl⟩, _⟩ := create_eq_ok.mp h
  obtain ⟨_, _, _, _, _, _, hd⟩ := place_eq_ok.mp hl
  exact hd

theorem write_of_create (h : fs.create p = .ok (opened, there)) (content : Bytes) :
    opened.write there content = fs.put there (.file content) := by
  rw [(create_eq_ok.mp h).2, write, put_put]

theorem create_put (h : fs.create p = .ok (opened, there)) (content : Bytes) :
    (fs.put there (.file content)).create p = .ok (opened, there) := by
  obtain ⟨⟨path, hp, hl⟩, rfl⟩ := create_eq_ok.mp h
  exact create_eq_ok.mpr ⟨⟨path, hp, place_put hl⟩, (put_put fs there _ _).symm⟩

theorem openRead_put_of_create (h : fs.create p = .ok (opened, there)) (content : Bytes) :
    (fs.put there (.file content)).openRead p = .ok there := by
  obtain ⟨⟨path, hp, hl⟩, _⟩ := create_eq_ok.mp h
  exact openRead_eq_ok.mpr ⟨path, hp, locate_put_of_place hl⟩

theorem openRead_put (hd : fs.entry? target ≠ some .directory) (h : fs.openRead p = .ok there) :
    (fs.put target (.file content)).openRead p = .ok there := by
  obtain ⟨path, hp, hl⟩ := openRead_eq_ok.mp h
  exact openRead_eq_ok.mpr ⟨path, hp, locate_put hd hl⟩

theorem read_put_self (fs : FileSystem) (h : target ≠ []) (content : Bytes) :
    (fs.put target (.file content)).read target = .ok content := by
  rw [read, entry?_put_self h]

theorem read_put_of_ne (h : here ≠ target) : (fs.put target entry).read here = fs.read here := by
  rw [read, entry?_put_of_ne h, read]

end

theorem readText_eq_ok {p text : String} :
    fs.readText p = .ok text ↔ ∃ here, fs.openRead p = .ok here ∧
      ∃ bytes, fs.read here = .ok bytes ∧ decodeText bytes = .ok text := by
  simp only [readText, bind_eq_ok]

section

variable {p : String} {e : IoError}

theorem path?_eq_error (h : path? p = .error e) : e = .nulInPath ∨ ∃ f, e = .fault f := by
  unfold path? at h
  split at h
  · exact .inl (Except.error.inj h).symm
  · split at h
    · exact .inr ⟨_, (Except.error.inj h).symm⟩
    · split at h
      · exact .inr ⟨_, (Except.error.inj h).symm⟩
      · exact absurd h (by simp)

theorem openRead_eq_error (h : fs.openRead p = .error e) : e = .nulInPath ∨ ∃ f, e = .fault f := by
  unfold openRead at h
  cases hp : path? p with
  | error e' =>
    rw [hp, error_bind] at h
    have he : e' = e := Except.error.inj h
    exact path?_eq_error (he ▸ hp)
  | ok path =>
    rw [hp, ok_bind] at h
    cases hl : fs.locate path with
    | error f =>
      rw [hl] at h
      exact .inr ⟨f, (Except.error.inj h).symm⟩
    | ok there =>
      rw [hl] at h
      exact absurd h (by simp [Except.mapError])

theorem eq_fault_of_kind (h : fs.openRead p = .error e) (hk : e.kind = .notFound) :
    e = .fault .notFound := by
  rcases openRead_eq_error h with rfl | ⟨f, rfl⟩
  · exact absurd hk (by decide)
  · cases f with
    | notFound => rfl
    | notADirectory => exact absurd hk (by decide)
    | isADirectory => exact absurd hk (by decide)
    | nameTooLong => exact absurd hk (by decide)

end

section

variable {text : String} {path : Path}

theorem absolute_or_names_ne_nil (h : text ≠ "") :
    (Path.ofString text).absolute = true ∨ (Path.ofString text).names ≠ [] := by
  have hne : text.toList ≠ [] := by simpa using h
  obtain ⟨c, cs, hc⟩ := List.exists_cons_of_ne_nil hne
  by_cases hs : c = '/'
  · exact .inl (by simp [Path.ofString, hc, hs])
  · obtain ⟨w, rest, he, hw, hr, _⟩ := @exists_word (· = '/') _ c hs cs
    exact .inr (by simp [Path.ofString, hc, he, runs_word_append hw hr])

theorem path?_eq_ok (h : path? text = .ok path) :
    text ≠ "" ∧ path = Path.ofString text := by
  unfold path? at h
  split at h
  · exact absurd h (by simp)
  · split at h
    · exact absurd h (by simp)
    · split at h
      · exact absurd h (by simp)
      · rename_i he _
        exact ⟨by simpa using he, (Except.ok.inj h).symm⟩

theorem isSome_of_walk {names : List String} (h : fs.walk here names = .ok there)
    (hs : names ≠ [] ∨ (fs.entry? here).isSome) : (fs.entry? there).isSome := by
  induction names generalizing here with
  | nil =>
    have he : here = there := Except.ok.inj h
    exact he ▸ hs.resolve_left (fun hn => hn rfl)
  | cons name names ih =>
    rw [walk, List.foldlM_cons, bind_eq_ok] at h
    obtain ⟨next, hn, hw⟩ := h
    exact ih hw (.inr (step_eq_ok.mp hn).2)

theorem isSome_of_openRead (h : fs.openRead text = .ok here) :
    (fs.entry? here).isSome := by
  obtain ⟨path, hp, hl⟩ := openRead_eq_ok.mp h
  obtain ⟨hne, rfl⟩ := path?_eq_ok hp
  refine isSome_of_walk (locate_eq_ok.mp hl).1 ?_
  rcases absolute_or_names_ne_nil hne with ha | hn
  · -- a path without names is that of the root, which is always there
    exact .inr (by rw [start, if_pos ha]; rfl)
  · exact .inl hn

end

end FileSystem

end WeightTables
