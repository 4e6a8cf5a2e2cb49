import WeightTables.Loading
import WeightTables.Proofs.FileSystem
import Mathlib.Data.List.Forall2

/-! What loading a text comes to. Either all of its tokens stand for weights, or there is a first
one that does not, and that one is reported whatever the number of tokens is. -/

namespace WeightTables

abbrev StandFor : List String → List Weight → Prop :=
  List.Forall₂ fun t w => Weight.ofText? t = some w

/-- The first token that stands for no weight, with its index. -/
def FirstBad (ts : List String) (i : Nat) (t : String) : Prop :=
  ts[i]? = some t ∧ Weight.ofText? t = none ∧ ∀ s ∈ ts.take i, (Weight.ofText? s).isSome

section

variable {s t : String} {ts : List String} {i : Nat}

theorem not_firstBad_nil : ¬ FirstBad [] i t := by
  simp [FirstBad]

theorem FirstBad.head_eq (h : FirstBad (s :: ts) 0 t) : s = t := by
  simpa using h.1

theorem FirstBad.of_cons (h : FirstBad (s :: ts) (i + 1) t) :
    (∃ w, Weight.ofText? s = some w) ∧ FirstBad ts i t := by
  obtain ⟨ht, hn, hb⟩ := h
  refine ⟨Option.isSome_iff_exists.mp (hb s (by simp)), by simpa using ht, hn, fun x hx => ?_⟩
  exact hb x (by simp [hx])

theorem FirstBad.head (h : Weight.ofText? t = none) (ts : List String) : FirstBad (t :: ts) 0 t :=
  ⟨rfl, h, by simp⟩

theorem FirstBad.cons {w : Weight} (h : FirstBad ts i t) (hs : Weight.ofText? s = some w) :
    FirstBad (s :: ts) (i + 1) t := by
  obtain ⟨ht, hn, hb⟩ := h
  refine ⟨by simpa using ht, hn, fun x hx => ?_⟩
  rw [List.take_succ_cons, List.mem_cons] at hx
  rcases hx with rfl | hx
  · simp [hs]
  · exact hb x hx

theorem standFor_or_firstBad (ts : List String) :
    (∃ ws, StandFor ts ws) ∨ ∃ i t, FirstBad ts i t := by
  induction ts with
  | nil => exact .inl ⟨[], .nil⟩
  | cons s ts ih =>
    cases hs : Weight.ofText? s with
    | none => exact .inr ⟨0, s, .head hs ts⟩
    | some w =>
      rcases ih with ⟨ws, hw⟩ | ⟨i, t, hb⟩
      · exact .inl ⟨w :: ws, .cons hs hw⟩
      · exact .inr ⟨i + 1, t, hb.cons hs⟩

theorem exists_standFor_iff :
    (∃ ws, StandFor ts ws) ↔ ∀ t ∈ ts, (Weight.ofText? t).isSome := by
  constructor
  · rintro ⟨ws, h⟩
    induction h with
    | nil => simp
    | cons hs _ ih => exact List.forall_mem_cons.mpr ⟨by rw [hs]; rfl, ih⟩
  · intro h
    refine (standFor_or_firstBad ts).resolve_right ?_
    rintro ⟨i, t, ht, hn, _⟩
    have hs := h t (List.mem_of_getElem? ht)
    rw [hn] at hs
    exact absurd hs (by decide)

theorem StandFor.getElem? {ws : List Weight} (h : StandFor ts ws) {i : Nat}
    {t : String} (ht : ts[i]? = some t) : ws[i]? = Weight.ofText? t := by
  induction h generalizing i with
  | nil => exact absurd ht (by simp)
  | cons hs _ ih =>
    cases i with
    | zero => exact Option.some.inj ht ▸ hs.symm
    | succ i => exact ih ht

theorem weightsOfTokens_of_standFor {ws : List Weight} (h : StandFor ts ws) (index : Nat) :
    weightsOfTokens index ts = .ok ws := by
  induction h generalizing index with
  | nil => rfl
  | cons hs _ ih => simp only [weightsOfTokens, hs, ih, Except.map]

theorem weightsOfTokens_of_firstBad (h : FirstBad ts i t) (index : Nat) :
    weightsOfTokens index ts = .error (.badToken (index + i) t) := by
  induction ts generalizing i index with
  | nil => exact absurd h not_firstBad_nil
  | cons s ts ih =>
    cases i with
    | zero =>
      obtain rfl := h.head_eq
      simp only [weightsOfTokens, h.2.1, Nat.add_zero]
    | succ i =>
      obtain ⟨⟨w, hs⟩, hb⟩ := h.of_cons
      have he : index + 1 + i = index + (i + 1) := by omega
      simp only [weightsOfTokens, hs, ih hb, Except.map, he]

end

section

variable {count : Nat} {text : String}

theorem loadText_of_standFor {ws : List Weight} (h : StandFor (tokens text) ws) :
    loadText count text =
      if ws.length = count then .ok ws else .error (.wrongCount count ws.length) := by
  rw [loadText, weightsOfTokens_of_standFor h 0]
  rfl

theorem loadText_of_firstBad {i : Nat} {t : String} (h : FirstBad (tokens text) i t) :
    loadText count text = .error (.badToken i t) := by
  rw [loadText, weightsOfTokens_of_firstBad h 0, Nat.zero_add]
  rfl

theorem loadText_cases (count : Nat) (text : String) :
    (∃ ws, StandFor (tokens text) ws ∧ ws.length = count ∧ loadText count text = .ok ws) ∨
      (∃ i t, FirstBad (tokens text) i t ∧ loadText count text = .error (.badToken i t)) ∨
      ∃ ws, StandFor (tokens text) ws ∧ ws.length ≠ count ∧
        loadText count text = .error (.wrongCount count ws.length) := by
  rcases standFor_or_firstBad (tokens text) with ⟨ws, hw⟩ | ⟨i, t, hb⟩
  · by_cases hl : ws.length = count
    · exact .inl ⟨ws, hw, hl, by rw [loadText_of_standFor hw, if_pos hl]⟩
    · exact .inr (.inr ⟨ws, hw, hl, by rw [loadText_of_standFor hw, if_neg hl]⟩)
  · exact .inr (.inl ⟨i, t, hb, loadText_of_firstBad hb⟩)

end

section

variable {fs : FileSystem} {source text : String} {count : Nat}

theorem loadContent_bytesOfText (count : Nat) (text : String) :
    (loadContent count (.ok (bytesOfText text))).result = loadText count text := by
  simp only [loadContent, decodeText_bytesOfText]

theorem loadFile_of_readText (h : fs.readText source = .ok text) :
    (loadFile count fs source).result = loadText count text := by
  obtain ⟨here, ho, bytes, hb, hd⟩ := FileSystem.readText_eq_ok.mp h
  simp only [loadFile, ho, loadContent, hb, hd]

theorem loadFile_of_unreadable {e : IoError} (h : fs.readText source = .error e) :
    ((loadFile count fs source).result = .error (.fileNotFound source) ∧ e = .fault .notFound) ∨
      (loadFile count fs source).result = .error (.io e) := by
  unfold FileSystem.readText at h
  cases ho : fs.openRead source with
  | error e' =>
    rw [ho, error_bind] at h
    have he := Except.error.inj h
    rw [he] at ho
    by_cases hk : e.kind = .notFound
    · exact .inl ⟨by simp only [loadFile, ho, hk, if_true], FileSystem.eq_fault_of_kind ho hk⟩
    · exact .inr (by simp only [loadFile, ho, hk, if_false])
  | ok here =>
    rw [ho, ok_bind] at h
    cases hb : fs.read here with
    | error e' =>
      rw [hb, error_bind] at h
      exact .inr (by simp only [loadFile, ho, loadContent, hb, Except.error.inj h])
    | ok bytes =>
      rw [hb, ok_bind] at h
      exact .inr (by simp only [loadFile, ho, loadContent, hb, h])

end

end WeightTables
