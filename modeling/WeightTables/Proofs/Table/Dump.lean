import WeightTables.Proofs.Export.ArrayText
import WeightTables.Proofs.Table.Bytes
import WeightTables.Proofs.Text.Quoted

/-! The dump of a table as a text to load. The values stand between its last two brackets, whatever
characters the name has. They load as the same weights as long as all are finite, and the first one
that is not is the token that is refused. The bytes of the table load in any case. -/

namespace WeightTables

/-- What stands between the last opening and the last closing bracket of a text. -/
def lastBrackets (text : String) : String :=
  String.ofList
    (((text.toList.reverse.dropWhile (· ≠ ']')).drop 1).takeWhile (· ≠ '[')).reverse

theorem lastBrackets_append {inner after : String} (hi : '[' ∉ inner.toList)
    (ha : ']' ∉ after.toList) (before : String) :
    lastBrackets (before ++ "[" ++ inner ++ "]" ++ after) = inner := by
  have hr : ∀ c ∈ after.toList.reverse, decide (c ≠ ']') = true := by
    intro c hc
    exact decide_eq_true fun he => ha (he ▸ List.mem_reverse.mp hc)
  have hl : ∀ c ∈ inner.toList.reverse, decide (c ≠ '[') = true := by
    intro c hc
    exact decide_eq_true fun he => hi (he ▸ List.mem_reverse.mp hc)
  have ht : (before ++ "[" ++ inner ++ "]" ++ after).toList.reverse =
      after.toList.reverse ++ ']' :: (inner.toList.reverse ++ '[' :: before.toList.reverse) := by
    simp
  rw [lastBrackets, ht, List.dropWhile_append_of_pos hr, List.dropWhile_cons_of_neg (by decide),
    List.drop_succ_cons, List.drop_zero, List.takeWhile_append_of_pos hl,
    List.takeWhile_cons_of_neg (by decide), List.append_nil, List.reverse_reverse,
    String.ofList_toList]

section

variable {ws : List Weight}

theorem tokens_intercalate {ls : List String} (h : ∀ l ∈ ls, IsWord IsSeparator l.toList) :
    tokens (", ".intercalate ls) = ls := by
  have hw : ∀ w ∈ ls.map String.toList, IsWord IsSeparator w := by
    intro w hw
    obtain ⟨l, hl, rfl⟩ := List.mem_map.mp hw
    exact h l hl
  have hgap : ∀ c ∈ [' '], IsSeparator c := @isSeparator_of_mem_blanks 1
  have hs : ", ".toList = [',', ' '] := rfl
  rw [tokens, String.toList_intercalate, hs, runs_intercalate hw isSeparator_comma hgap,
    List.map_map]
  simp [Function.comp_def]

theorem opening_not_mem_literals (ws : List Weight) :
    '[' ∉ (", ".intercalate (ws.map Weight.literal)).toList := by
  intro hm
  rw [String.toList_intercalate] at hm
  rcases mem_intercalate hm with hs | ⟨cs, hcs, hc⟩
  · exact absurd hs (by decide)
  · obtain ⟨l, hl, rfl⟩ := List.mem_map.mp hcs
    exact (notBracket_of_mem_literals ws l hl _ hc).1 rfl

/-- The first of some weights that is not finite, with its index. -/
def FirstNonFinite (ws : List Weight) (i : Nat) (w : Weight) : Prop :=
  ws[i]? = some w ∧ ¬ w.IsFinite ∧ ∀ v ∈ ws.take i, v.IsFinite

theorem exists_firstNonFinite (h : ∃ w ∈ ws, ¬ w.IsFinite) : ∃ i w, FirstNonFinite ws i w := by
  induction ws with
  | nil => simp at h
  | cons v ws ih =>
    by_cases hv : v.IsFinite
    · have ht : ∃ w ∈ ws, ¬ w.IsFinite := by
        obtain ⟨w, hm, hw⟩ := h
        rcases List.mem_cons.mp hm with rfl | hm
        · exact absurd hv hw
        · exact ⟨w, hm, hw⟩
      obtain ⟨i, w, hi, hw, hb⟩ := ih ht
      refine ⟨i + 1, w, hi, hw, ?_⟩
      rw [List.take_succ_cons]
      exact List.forall_mem_cons.mpr ⟨hv, hb⟩
    · exact ⟨0, v, rfl, hv, by simp⟩

theorem firstBad_literals {i : Nat} {w : Weight} (h : FirstNonFinite ws i w) :
    FirstBad (ws.map Weight.literal) i w.word := by
  obtain ⟨hi, hw, hb⟩ := h
  refine ⟨?_, w.ofText?_word, ?_⟩
  · rw [List.getElem?_map, hi, Option.map_some, Weight.literal_of_not_isFinite hw]
  · intro s hs
    rw [← List.map_take] at hs
    obtain ⟨v, hv, rfl⟩ := List.mem_map.mp hs
    rw [Weight.ofText?_literal (hb v hv)]
    rfl

end

namespace Table

theorem dump_eq (t : Table) :
    t.dump = "WeightTable \x7b name: " ++ quote t.name ++ ", values: " ++ "[" ++
      ", ".intercalate (t.values.map Weight.literal) ++ "]" ++ " \x7d" := by
  have ho : ", values: [" = ", values: " ++ "[" := rfl
  have hc : "] \x7d" = "]" ++ " \x7d" := rfl
  unfold dump
  rw [ho, hc]
  simp only [toString_string, String.append_assoc]

theorem lastBrackets_dump (t : Table) :
    lastBrackets t.dump = ", ".intercalate (t.values.map Weight.literal) := by
  rw [dump_eq, lastBrackets_append (opening_not_mem_literals t.values) (by decide)]

theorem tokens_lastBrackets_dump (t : Table) :
    tokens (lastBrackets t.dump) = t.values.map Weight.literal := by
  rw [lastBrackets_dump, tokens_intercalate (isWord_of_mem_literals t.values)]

end Table

/-- What the bytes of a table load as, and what stands between the last brackets of its dump. -/
structure DumpLoads (t : Table) : Prop where
  bytes : loadBytes t.length t.bytes = .ok t.values
  brackets : ∃ before after, t.dump = before ++ "[" ++ lastBrackets t.dump ++ "]" ++ after ∧
    '[' ∉ (lastBrackets t.dump ++ "]" ++ after).toList ∧ ']' ∉ after.toList
  finite : (∀ w ∈ t.values, w.IsFinite) → loadText t.length (lastBrackets t.dump) = .ok t.values
  first : (∃ w ∈ t.values, ¬ w.IsFinite) → ∃ i w, FirstNonFinite t.values i w
  nonFinite : ∀ i w, FirstNonFinite t.values i w →
    loadText t.length (lastBrackets t.dump) = .error (.badToken i w.word)

theorem dump_loads (t : Table) : DumpLoads t where
  bytes := loadBytes_eq_ok.mpr ⟨rfl, rfl⟩
  brackets := by
    have hi := opening_not_mem_literals t.values
    rw [t.lastBrackets_dump]
    refine ⟨_, _, t.dump_eq, ?_, by decide⟩
    simpa using hi
  finite h := by
    have hs : StandFor (tokens (lastBrackets t.dump)) t.values := by
      rw [t.tokens_lastBrackets_dump]
      exact standFor_literals h
    rw [loadText_of_standFor hs]
    exact if_pos rfl
  first := exists_firstNonFinite
  nonFinite i w h := by
    have hb : FirstBad (tokens (lastBrackets t.dump)) i w.word := by
      rw [t.tokens_lastBrackets_dump]
      exact firstBad_literals h
    exact loadText_of_firstBad hb

/-- A negative zero, the least subnormal and the greatest weight under a name with brackets, and an
infinity before a pattern that is no number. -/
theorem dump_loads_small :
    loadText 3 (lastBrackets (Table.mk "]a[" [⟨0x80000000⟩, ⟨1⟩, ⟨0x7f7fffff⟩]).dump) =
      .ok [⟨0x80000000⟩, ⟨1⟩, ⟨0x7f7fffff⟩] ∧
    loadText 3 (lastBrackets (Table.mk "t" [⟨0x3f800000⟩, ⟨0xff800000⟩, ⟨0x7fc00001⟩]).dump) =
      .error (.badToken 1 "-inf") := by
  constructor
  · exact (dump_loads ⟨"]a[", [⟨0x80000000⟩, ⟨1⟩, ⟨0x7f7fffff⟩]⟩).finite (by decide)
  · exact (dump_loads ⟨"t", [⟨0x3f800000⟩, ⟨0xff800000⟩, ⟨0x7fc00001⟩]⟩).nonFinite 1 ⟨0xff800000⟩
      ⟨rfl, by decide, by decide⟩

end WeightTables
