import WeightTables.BiasText
import WeightTables.Export.Build
import WeightTables.Proofs.Loading

/-! The exported biases as a weight file: there are as many as the table of the fourth layer has,
all of them can be read, and none of them is zero. The text is read row by row. -/

namespace WeightTables

/-- A text that ends in a separator, with tokens that stand for weights other than zero. -/
structure WeightRow (text : String) (count : Nat) : Prop where
  closed : ∀ rest, tokens (text ++ rest) = tokens text ++ tokens rest
  reads : ∃ ws, StandFor (tokens text) ws ∧ ws.length = count ∧ ∀ w ∈ ws, ¬ w.IsZero

namespace WeightRow

variable {a b : String} {m : Nat}

theorem append (n : Nat) (ha : WeightRow a m) (hb : WeightRow b n) :
    WeightRow (a ++ b) (m + n) where
  closed rest := by
    rw [String.append_assoc, ha.closed, ha.closed b, hb.closed, List.append_assoc]
  reads := by
    obtain ⟨vs, hv, rfl, hvz⟩ := ha.reads
    obtain ⟨ws, hw, rfl, hwz⟩ := hb.reads
    refine ⟨vs ++ ws, ?_, List.length_append, fun w hm => ?_⟩
    · rw [ha.closed]
      exact List.rel_append hv hw
    · exact (List.mem_append.mp hm).elim (hvz w) (hwz w)

theorem ofText?_ofList (cs : List Char) :
    Weight.ofText? (String.ofList cs) = (Numeral.parse? cs).bind Weight.ofNumeral? := by
  rw [Weight.ofText?, String.toList_ofList]

theorem exists_standFor {rs : List (List Char)}
    (h : ∀ r ∈ rs, ∃ w ∈ (Numeral.parse? r).bind Weight.ofNumeral?, ¬ w.IsZero) :
    ∃ ws, StandFor (rs.map String.ofList) ws ∧ ∀ w ∈ ws, ¬ w.IsZero := by
  induction rs with
  | nil => exact ⟨[], .nil, by simp⟩
  | cons r rs ih =>
    obtain ⟨⟨w, hw, hz⟩, hr⟩ := List.forall_mem_cons.mp h
    obtain ⟨ws, hs, hsz⟩ := ih hr
    exact ⟨w :: ws, .cons ((ofText?_ofList r).trans hw) hs, List.forall_mem_cons.mpr ⟨hz, hsz⟩⟩

/-- What has to be checked of a row is checked on its characters. -/
theorem of_chars {cs : List Char} {c : Char} {n : Nat} (ha : a = String.ofList cs)
    (hc : cs.getLast? = some c) (hs : IsSeparator c)
    (h : (runs IsSeparator cs).length = n ∧
      ∀ r ∈ runs IsSeparator cs, ∃ w ∈ (Numeral.parse? r).bind Weight.ofNumeral?, ¬ w.IsZero) :
    WeightRow a n where
  closed rest := by
    obtain ⟨front, rfl⟩ := List.getLast?_eq_some_iff.mp hc
    have hf : tokens (a ++ "") = tokens (String.ofList front) ++ tokens "" := by
      rw [ha, String.ofList_append, tokens_append hs]
    rw [String.append_empty] at hf
    rw [hf, ha, String.ofList_append, tokens_append hs, List.append_assoc]
    rfl
  reads := by
    have ht : tokens a = (runs IsSeparator cs).map String.ofList := by
      rw [ha, tokens, String.toList_ofList]
    obtain ⟨ws, hs, hz⟩ := exists_standFor h.2
    refine ⟨ws, ht ▸ hs, ?_, hz⟩
    rw [← hs.length_eq, List.length_map, h.1]

end WeightRow

theorem weightRow_biasText : WeightRow biasText 256 := by
  unfold biasText
  -- the first `rfl` finds the characters of a row, so no text has to be decoded in the check
  refine .append 6 ?_ (.of_chars rfl rfl (by decide) (by decide +kernel))
  iterate 24 refine .append 10 ?_ (.of_chars rfl rfl (by decide) (by decide +kernel))
  exact .of_chars rfl rfl (by decide) (by decide +kernel)

theorem loadText_biasText :
    ∃ ws, loadText biasCount biasText = .ok ws ∧ ws.length = biasCount ∧ ∀ w ∈ ws, ¬ w.IsZero := by
  obtain ⟨ws, hw, (hl : ws.length = biasCount), hz⟩ := weightRow_biasText.reads
  exact ⟨ws, by rw [loadText_of_standFor hw, if_pos hl], hl, hz⟩

end WeightTables
