import WeightTables.Proofs.Table.Bytes
import WeightTables.Proofs.Table.Extremes
import WeightTables.Proofs.Loading
import WeightTables.Proofs.Text.Tokens

/-! Two texts with separators between them. The tokens of the one come before those of the other, so
what is wrong with either of them is wrong with both together, in the second one at a position
further on. Otherwise they load as one table after the other, whose bytes stand side by side and
whose summaries join into one. -/

namespace WeightTables

/-- Without values there are no extremes, only what stands in for them. -/
def Summary.join (s t : Summary) : Summary where
  length := s.length + t.length
  least :=
    if s.length = 0 then t.least else if t.length = 0 then s.least else min s.least t.least
  greatest :=
    if s.length = 0 then t.greatest
    else if t.length = 0 then s.greatest else max s.greatest t.greatest
  zeros := s.zeros + t.zeros

section

variable {v w : List Weight}

theorem bytesOfWeights_append (v w : List Weight) :
    bytesOfWeights (v ++ w) = bytesOfWeights v ++ bytesOfWeights w :=
  List.flatMap_append

theorem Summary.bounds_of (h : v ≠ []) :
    Bounds v ⟨(Summary.of v).least, (Summary.of v).greatest⟩ :=
  (summarizes_of v).bounds h

theorem Summary.bounds_join (h : v ++ w ≠ []) :
    Bounds (v ++ w)
      ⟨((Summary.of v).join (.of w)).least, ((Summary.of v).join (.of w)).greatest⟩ := by
  have hlen : ∀ u : List Weight, (Summary.of u).length = 0 ↔ u = [] :=
    fun u => List.length_eq_zero_iff
  by_cases hv : v = []
  · have hw : w ≠ [] := by simpa [hv] using h
    simpa [join, hlen, hv] using bounds_of hw
  · by_cases hw : w = []
    · simpa [join, hlen, hv, hw] using bounds_of hv
    · simpa [join, hlen, hv, hw] using (bounds_of hv).append (bounds_of hw)

theorem Summary.of_append (v w : List Weight) :
    Summary.of (v ++ w) = (Summary.of v).join (.of w) := by
  have hs : Summarizes (v ++ w) ((Summary.of v).join (.of w)) := by
    refine summarizes_of_bounds ?_ bounds_join ?_ ?_
    · exact List.length_append.symm
    · exact List.countP_append.symm
    · intro he
      obtain ⟨rfl, rfl⟩ := List.append_eq_nil_iff.mp he
      exact ⟨rfl, rfl⟩
  exact hs.eq_of.symm

end

section

variable {ts us : List String} {ws vs : List Weight} {i : Nat} {t : String}

theorem StandFor.append (h : StandFor ts ws) (h' : StandFor us vs) :
    StandFor (ts ++ us) (ws ++ vs) := by
  induction h with
  | nil => exact h'
  | cons hs _ ih => exact .cons hs ih

theorem FirstBad.append_right (h : FirstBad ts i t) (us : List String) :
    FirstBad (ts ++ us) i t := by
  obtain ⟨ht, hn, hb⟩ := h
  have hi : i < ts.length := (List.getElem?_eq_some_iff.mp ht).1
  refine ⟨by rwa [List.getElem?_append_left hi], hn, ?_⟩
  rwa [List.take_append_of_le_length hi.le]

theorem FirstBad.append_left (hs : StandFor ts ws) (h : FirstBad us i t) :
    FirstBad (ts ++ us) (ts.length + i) t := by
  induction hs with
  | nil => simpa using h
  | cons hs _ ih =>
    have hh := ih.cons hs
    rwa [Nat.add_right_comm] at hh

theorem exists_standFor_of_not_firstBad (h : ∀ i t, ¬ FirstBad ts i t) : ∃ ws, StandFor ts ws :=
  (standFor_or_firstBad ts).resolve_right fun ⟨i, t, hb⟩ => h i t hb

end

theorem tokens_append_separators {a s b : String} (hne : s ≠ "")
    (hs : ∀ c ∈ s.toList, IsSeparator c) : tokens (a ++ s ++ b) = tokens a ++ tokens b := by
  obtain ⟨c, cs, hc⟩ := List.exists_cons_of_ne_nil (mt String.toList_eq_nil_iff.mp hne)
  rw [hc, List.forall_mem_cons] at hs
  have he : a ++ s ++ b = a ++ String.ofList [c] ++ (String.ofList cs ++ b) := by
    rw [← String.toList_inj]
    simp [hc]
  have hcs : tokens (String.ofList cs ++ b) = tokens b := by
    simp only [tokens, String.toList_append, String.toList_ofList, runs_separators_append hs.2]
  rw [he, tokens_append hs.1, hcs]

/-- The tables of two texts and what the joined table has of each. -/
structure JoinedTables (v w : List Weight) : Prop where
  bytes : ∀ name, (Table.mk name (v ++ w)).bytes =
    (Table.mk name v).bytes ++ (Table.mk name w).bytes
  summary : ∀ name, (Table.mk name (v ++ w)).summary =
    (Table.mk name v).summary.join (Table.mk name w).summary

/-- What two texts with separators between them load as. -/
structure JoinLoads (count : Nat) (a b joined : String) : Prop where
  badBefore : ∀ i t, FirstBad (tokens a) i t → loadText count joined = .error (.badToken i t)
  badAfter : (∀ i t, ¬ FirstBad (tokens a) i t) → ∀ j t, FirstBad (tokens b) j t →
    loadText count joined = .error (.badToken ((tokens a).length + j) t)
  wrongCount : (∀ i t, ¬ FirstBad (tokens a) i t) → (∀ j t, ¬ FirstBad (tokens b) j t) →
    count ≠ (tokens a).length + (tokens b).length →
      loadText count joined = .error (.wrongCount count ((tokens a).length + (tokens b).length))
  loaded : (∀ i t, ¬ FirstBad (tokens a) i t) → (∀ j t, ¬ FirstBad (tokens b) j t) →
    count = (tokens a).length + (tokens b).length →
      ∃ v w, loadText (tokens a).length a = .ok v ∧ loadText (tokens b).length b = .ok w ∧
        loadText count joined = .ok (v ++ w) ∧ JoinedTables v w

theorem loadText_tokens_of_standFor {text : String} {ws : List Weight}
    (h : StandFor (tokens text) ws) : loadText (tokens text).length text = .ok ws := by
  rw [loadText_of_standFor h, if_pos h.length_eq.symm]

theorem joinedTables (v w : List Weight) : JoinedTables v w where
  bytes _ := bytesOfWeights_append v w
  summary _ := Summary.of_append v w

/-- Joining two texts joins what they load as, unless one of them is refused. -/
theorem loadText_joined {a s b : String} (hne : s ≠ "") (hs : ∀ c ∈ s.toList, IsSeparator c)
    (count : Nat) : JoinLoads count a b (a ++ s ++ b) := by
  have ht := @tokens_append_separators a s b hne hs
  refine ⟨fun i t hb => ?_, fun ha j t hb => ?_, fun ha hb hc => ?_, fun ha hb hc => ?_⟩
  · exact loadText_of_firstBad (ht ▸ hb.append_right (tokens b))
  · obtain ⟨v, hv⟩ := exists_standFor_of_not_firstBad ha
    exact loadText_of_firstBad (ht ▸ hb.append_left hv)
  all_goals
    obtain ⟨v, hv⟩ := exists_standFor_of_not_firstBad ha
    obtain ⟨w, hw⟩ := exists_standFor_of_not_firstBad hb
    have hload := @loadText_of_standFor count _ _ (ht ▸ hv.append hw)
    rw [List.length_append, ← hv.length_eq, ← hw.length_eq] at hload
  · rw [hload, if_neg (Ne.symm hc)]
  · rw [if_pos hc.symm] at hload
    exact ⟨v, w, loadText_tokens_of_standFor hv, loadText_tokens_of_standFor hw, hload,
      joinedTables v w⟩

/-- A table of negative values beside an empty one, whose zeros are no extremes, and a bad token
behind three good ones. -/
theorem loadText_joined_small :
    (∃ v w, loadText 2 ("-1.5 -2" ++ " " ++ ",") = .ok (v ++ w) ∧
      (Table.mk "t" (v ++ w)).summary = ⟨2, ⟨0xc0000000⟩, ⟨0xbfc00000⟩, 0⟩) ∧
    loadText 9 ("1,2 3" ++ "\u3000" ++ "4,inf") = .error (.badToken 4 "inf") := by
  have hgood : ∀ ts : List String, (∀ t ∈ ts, (Weight.ofText? t).isSome) →
      ∀ i t, ¬ FirstBad ts i t :=
    fun ts h i t hb => by simpa [hb.2.1] using h t (List.mem_of_getElem? hb.1)
  have hone : ∀ c, IsSeparator c → ∀ d ∈ [c], IsSeparator d :=
    fun c hc => List.forall_mem_singleton.mpr hc
  constructor
  · have hj := @loadText_joined "-1.5 -2" " " "," (by decide) (hone _ (by decide)) 2
    obtain ⟨v, w, hv, hw, hl, ht⟩ := hj.loaded (hgood _ (by decide +kernel)) (hgood _ (by decide))
      (by decide)
    have hv' : loadText 2 "-1.5 -2" = .ok [⟨0xbfc00000⟩, ⟨0xc0000000⟩] := by decide +kernel
    have hw' : loadText 0 "," = .ok [] := by decide
    obtain rfl := Except.ok.inj (hv'.symm.trans hv)
    obtain rfl := Except.ok.inj (hw'.symm.trans hw)
    exact ⟨_, _, hl, (ht.summary "t").trans (by decide)⟩
  · have hb : FirstBad (tokens "4,inf") 1 "inf" := ⟨by decide, by decide, by decide +kernel⟩
    have hj := @loadText_joined "1,2 3" "\u3000" "4,inf" (by decide) (hone _ (by decide)) 9
    exact hj.badAfter (hgood _ (by decide +kernel)) 1 "inf" hb

end WeightTables
