import WeightTables.Proofs.Loading
import WeightTables.Proofs.Text.Tokens
import WeightTables.Table

/-! Loading a text into a table of a fixed length, slot by slot. Tokens beyond the last slot are
counted but not written, so that a bad one among them is still reported and no write falls outside
the table. Filling and loading come to the same. -/

namespace WeightTables

/-- A table that is being filled: its slots, and the number of tokens read so far. -/
structure Filling where
  row : List Weight
  found : Nat

inductive FillError where
  | refused (error : LoadError)
  | outside (error : RangeError)

namespace Filling

def empty (count : Nat) : Filling := ⟨List.replicate count .zero, 0⟩

def write (row : List Weight) (i : Nat) (w : Weight) : Except FillError (List Weight) :=
  if i < row.length then .ok (row.set i w) else .error (.outside (.index row.length i))

def step (count : Nat) (s : Filling) (token : String × Nat) : Except FillError Filling :=
  match Weight.ofText? token.1 with
  | none => .error (.refused (.badToken token.2 token.1))
  | some w => do
    let row ← if token.2 < count then write s.row token.2 w else .ok s.row
    return ⟨row, s.found + 1⟩

end Filling

def fillText (count : Nat) (text : String) : Except FillError (List Weight) := do
  let s ← (tokens text).zipIdx.foldlM (Filling.step count) (.empty count)
  if s.found = count then return s.row else throw (.refused (.wrongCount count s.found))

/-- The weights read so far stand in the first slots, as far as there are slots for them, and the
other slots are untouched. -/
structure Filled (count : Nat) (read : List Weight) (s : Filling) : Prop where
  row : s.row = read.take count ++ List.replicate (count - read.length) .zero
  found : s.found = read.length

section

variable {count i : Nat} {read ws : List Weight} {s : Filling} {t : String} {ts : List String}
  {w : Weight}

theorem filled_empty (count : Nat) : Filled count [] (.empty count) :=
  ⟨by rw [List.take_nil, List.nil_append]; rfl, rfl⟩

theorem Filled.length_row (h : Filled count read s) : s.row.length = count := by
  rw [h.row, List.length_append, List.length_take, List.length_replicate]
  omega

theorem Filled.row_eq (h : Filled count read s) (hl : read.length = count) : s.row = read := by
  rw [h.row, hl, Nat.sub_self, List.replicate_zero, List.append_nil, ← hl, List.take_length]

/-- A weight goes into the slot of its position if there is one. -/
theorem Filled.step (h : Filled count read s) (ht : Weight.ofText? t = some w) :
    ∃ s', Filling.step count s (t, read.length) = .ok s' ∧ Filled count (read ++ [w]) s' := by
  by_cases hc : read.length < count
  · have hw : Filling.write s.row read.length w = .ok (s.row.set read.length w) :=
      if_pos (h.length_row.symm ▸ hc)
    refine ⟨⟨s.row.set read.length w, s.found + 1⟩, ?_, ?_, ?_⟩
    · simp only [Filling.step, ht, if_pos hc, hw]
      rfl
    · obtain ⟨k, hk⟩ : ∃ k, count - read.length = k + 1 := Nat.exists_eq_add_one.mpr (by omega)
      have hrest : count - (read ++ [w]).length = k := by
        rw [List.length_append, List.length_singleton]
        omega
      have hle : (read ++ [w]).length ≤ count := by
        rw [List.length_append, List.length_singleton]
        omega
      rw [h.row, hrest, hk, List.take_of_length_le hc.le, List.take_of_length_le hle,
        List.replicate_succ, List.set_append_right _ _ (Nat.le_refl _), Nat.sub_self,
        List.set_cons_zero, List.append_assoc, List.singleton_append]
    · rw [List.length_append, h.found, List.length_singleton]
  · refine ⟨⟨s.row, s.found + 1⟩, ?_, ?_, ?_⟩
    · simp only [Filling.step, ht, if_neg hc]
      rfl
    · have hl := Nat.le_of_not_lt hc
      have hz : count - (read ++ [w]).length = count - read.length := by
        rw [List.length_append, List.length_singleton]
        omega
      rw [h.row, hz, List.take_append_of_le_length hl]
    · rw [List.length_append, h.found, List.length_singleton]

theorem Filled.run (h : Filled count read s) (hs : StandFor ts ws) :
    ∃ s', (ts.zipIdx read.length).foldlM (Filling.step count) s = .ok s' ∧
      Filled count (read ++ ws) s' := by
  induction hs generalizing read s with
  | nil => exact ⟨s, rfl, by rwa [List.append_nil]⟩
  | @cons t w ts ws ht _ ih =>
    obtain ⟨s₁, h₁, hf₁⟩ := h.step ht
    obtain ⟨s', h', hf'⟩ := ih hf₁
    rw [List.length_append, List.length_singleton] at h'
    refine ⟨s', ?_, by rwa [List.append_assoc] at hf'⟩
    rw [List.zipIdx_cons, List.foldlM_cons, h₁]
    exact h'

theorem Filled.run_of_firstBad (h : Filled count read s) (hb : FirstBad ts i t) :
    (ts.zipIdx read.length).foldlM (Filling.step count) s =
      .error (.refused (.badToken (read.length + i) t)) := by
  induction ts generalizing read s i with
  | nil => exact absurd hb not_firstBad_nil
  | cons t' ts ih =>
    rw [List.zipIdx_cons, List.foldlM_cons]
    cases i with
    | zero =>
      obtain rfl := hb.head_eq
      simp only [Filling.step, hb.2.1, Nat.add_zero]
      rfl
    | succ i =>
      obtain ⟨⟨w, hw⟩, hb⟩ := hb.of_cons
      obtain ⟨s₁, h₁, hf₁⟩ := h.step hw
      have hr := ih hf₁ hb
      rw [List.length_append, List.length_singleton, Nat.add_assoc, Nat.add_comm 1 i] at hr
      rw [h₁]
      exact hr

end

/-- Filling fails where loading does, and never because of a write outside the table. -/
theorem fillText_eq (count : Nat) (text : String) :
    fillText count text = (loadText count text).mapError .refused := by
  rcases standFor_or_firstBad (tokens text) with ⟨ws, hw⟩ | ⟨i, t, hb⟩
  · obtain ⟨s, hr, hf⟩ := (filled_empty count).run hw
    rw [List.length_nil] at hr
    rw [List.nil_append] at hf
    rw [fillText, hr, loadText_of_standFor hw, ok_bind, hf.found]
    split
    · rename_i hl
      rw [hf.row_eq hl]
      rfl
    · rfl
  · have hr := (filled_empty count).run_of_firstBad hb
    rw [List.length_nil, Nat.zero_add] at hr
    rw [fillText, hr, loadText_of_firstBad hb]
    rfl

section

variable {text before after token other : String} {i : Nat}

theorem FirstBad.around (h : FirstBad (tokens text) i token) (ha : Around text before token after)
    (hi : (tokens before).length = i) (ho : StartsApart IsSeparator other.toList) :
    FirstBad (tokens (before ++ token ++ other)) i token := by
  obtain ⟨ht, hn, hb⟩ := h
  obtain ⟨_, _, _, _, hw⟩ := exists_around ht
  rw [ha.text_eq, tokens_around ha.ends hw ha.starts, ← hi, List.take_left'] at hb
  · rw [tokens_around ha.ends hw ho, ← hi]
    refine ⟨by simp, hn, ?_⟩
    rwa [List.take_left']
    rfl
  · rfl

end

/-- What loading a text means. -/
structure LoadMeaning (count : Nat) (text : String) : Prop where
  exists_firstBad : (∃ t ∈ tokens text, Weight.ofText? t = none) → ∃ i t, FirstBad (tokens text) i t
  badToken : ∀ i t, FirstBad (tokens text) i t → loadText count text = .error (.badToken i t)
  exists_around : ∀ i t, FirstBad (tokens text) i t →
    ∃ before after, Around text before t after ∧ (tokens before).length = i
  restIgnored : ∀ i t before after other, FirstBad (tokens text) i t →
    Around text before t after → (tokens before).length = i →
      StartsApart IsSeparator other.toList →
        loadText count (before ++ t ++ other) = .error (.badToken i t)
  wrongCount : (∀ t ∈ tokens text, (Weight.ofText? t).isSome) → (tokens text).length ≠ count →
    loadText count text = .error (.wrongCount count (tokens text).length)
  loaded : (∀ t ∈ tokens text, (Weight.ofText? t).isSome) → (tokens text).length = count →
    ∃ values : List Weight, loadText count text = .ok values ∧ values.length = count ∧
      ∀ (i : Nat) t, (tokens text)[i]? = some t → values[i]? = Weight.ofText? t
  filled : fillText count text = (loadText count text).mapError .refused
  inside : ∀ e, fillText count text ≠ .error (.outside e)

theorem loadText_meaning (count : Nat) (text : String) : LoadMeaning count text where
  exists_firstBad := by
    rintro ⟨t, ht, hn⟩
    refine (standFor_or_firstBad (tokens text)).resolve_left fun hs => ?_
    have hsome := exists_standFor_iff.mp hs t ht
    rw [hn] at hsome
    exact absurd hsome (by decide)
  badToken _ _ := loadText_of_firstBad
  exists_around i t h := by
    obtain ⟨before, after, ha, hi, _⟩ := WeightTables.exists_around h.1
    exact ⟨before, after, ha, hi⟩
  restIgnored i t before after other h ha hi ho := loadText_of_firstBad (h.around ha hi ho)
  wrongCount h hne := by
    obtain ⟨ws, hs⟩ := exists_standFor_iff.mpr h
    rw [hs.length_eq] at hne ⊢
    rw [loadText_of_standFor hs, if_neg hne]
  loaded h hl := by
    obtain ⟨ws, hs⟩ := exists_standFor_iff.mpr h
    rw [hs.length_eq] at hl
    exact ⟨ws, by rw [loadText_of_standFor hs, if_pos hl], hl, fun i t ht => hs.getElem? ht⟩
  filled := fillText_eq count text
  inside e := by
    rw [fillText_eq]
    cases loadText count text <;> simp [Except.mapError]

/-- A bad token behind the last slot wins over the count, and over what comes after it. -/
theorem loadText_meaning_small :
    FirstBad (tokens "0.5 1e,7") 1 "1e" ∧ loadText 1 "0.5 1e,7" = .error (.badToken 1 "1e") ∧
      loadText 1 "0.5 1e ?" = .error (.badToken 1 "1e") := by
  have hb : FirstBad (tokens "0.5 1e,7") 1 "1e" := ⟨by decide, by decide, by decide +kernel⟩
  have hm := loadText_meaning 1 "0.5 1e,7"
  have ha : Around "0.5 1e,7" "0.5 " "1e" ",7" := ⟨by decide, by decide, by decide⟩
  have hr := hm.restIgnored 1 "1e" "0.5 " ",7" " ?" hb ha (by decide) (by decide)
  exact ⟨hb, hm.badToken 1 "1e" hb, hr⟩

end WeightTables
