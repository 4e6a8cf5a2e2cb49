import WeightTables.Proofs.Numeral
import Mathlib.Data.List.TakeWhile

/-! What is read as a numeral is one. The parts that reading takes off a text are those of a
well-formed numeral, which gives the whole text back when it is written down. -/

namespace WeightTables

theorem Sign.toList_split_append (cs : List Char) :
    (Sign.split cs).1.toList ++ (Sign.split cs).2 = cs := by
  unfold Sign.split
  split <;> rfl

theorem Scale.parse?_eq_some_iff {cs : List Char} {s : Scale} :
    Scale.parse? cs = some s ↔ s.WellFormed ∧ s.toList = cs := by
  constructor
  · intro h
    cases cs with
    | nil => simp [Scale.parse?] at h
    | cons c cs =>
      unfold Scale.parse? at h
      dsimp only at h
      split at h
      · rename_i hw
        obtain rfl := Option.some.inj h
        exact ⟨hw, congrArg (c :: ·) (Sign.toList_split_append cs)⟩
      · simp at h
  · rintro ⟨hw, rfl⟩
    exact Scale.parse?_toList hw

theorem Scale.toList_parse? {rest : List Char} (h : rest = [] ∨ (Scale.parse? rest).isSome) :
    ((Scale.parse? rest).map Scale.toList).getD [] = rest := by
  rcases h with rfl | h
  · rfl
  · obtain ⟨s, hs⟩ := Option.isSome_iff_exists.mp h
    rw [hs]
    exact (Scale.parse?_eq_some_iff.mp hs).2

namespace Numeral

variable {cs : List Char} {n : Numeral} {c : Char}

theorem toList_splitFraction (cs : List Char) :
    ((splitFraction cs).1.map ('.' :: ·)).getD [] ++ (splitFraction cs).2 = cs := by
  unfold splitFraction
  split
  · exact congrArg ('.' :: ·) List.takeWhile_append_dropWhile
  · rfl

theorem isDigit_of_mem_splitFraction (h : c ∈ (splitFraction cs).1.getD []) : c.isDigit := by
  unfold splitFraction at h
  split at h
  · exact List.mem_takeWhile_imp h
  · simp at h

theorem parse?_eq_some_iff : parse? cs = some n ↔ n.WellFormed ∧ n.toList = cs := by
  constructor
  · intro h
    unfold parse? at h
    dsimp only at h
    split at h
    · rename_i hc
      obtain ⟨hdigits, hscale⟩ := hc
      have hs := Sign.toList_split_append cs
      generalize Sign.split cs = signed at h hdigits hscale hs
      have hw := List.takeWhile_append_dropWhile (p := Char.isDigit) (l := signed.2)
      have hf := toList_splitFraction (signed.2.dropWhile Char.isDigit)
      have hd := @isDigit_of_mem_splitFraction (signed.2.dropWhile Char.isDigit)
      generalize splitFraction (signed.2.dropWhile Char.isDigit) = split at h hdigits hscale hf hd
      obtain rfl := Option.some.inj h
      refine ⟨⟨fun c hc => ?_, hdigits, fun s hs => (Scale.parse?_eq_some_iff.mp hs).1⟩, ?_⟩
      · rcases List.mem_append.mp hc with hc | hc
        · exact List.mem_takeWhile_imp hc
        · exact hd hc
      · simp only [toList]
        rw [Scale.toList_parse? hscale, List.append_assoc, List.append_assoc, hf, hw, hs]
    · simp at h
  · rintro ⟨hw, rfl⟩
    exact parse?_toList hw

theorem exists_digit (h : n.WellFormed) : ∃ c ∈ n.toList, c.isDigit := by
  obtain ⟨hd, hne, _⟩ := h
  obtain ⟨c, hc⟩ := List.exists_mem_of_ne_nil _ hne
  refine ⟨c, ?_, hd c hc⟩
  cases hf : n.fraction with
  | none => simp_all [toList]
  | some ds =>
    rw [hf, Option.getD_some, List.mem_append] at hc
    rcases hc with hc | hc <;> simp [toList, hf, hc]

/-- The last character of a numeral is a digit, or the point where no digit follows it. -/
theorem last_toList (h : n.WellFormed) (hc : n.toList.getLast? = some c) :
    c.isDigit ∨ c = '.' := by
  have hlast : ∀ cs ds : List Char, ds ≠ [] → (∀ d ∈ ds, d.isDigit) →
      (cs ++ ds).getLast? = some c → c.isDigit := by
    intro cs ds hne hd hl
    rw [List.getLast?_append_of_ne_nil _ hne] at hl
    exact hd c (List.mem_of_getLast? hl)
  rw [toList] at hc
  cases hs : n.scale with
  | some s =>
    obtain ⟨_, hne, hd⟩ := h.2.2 s hs
    left
    apply hlast (n.sign.toList ++ n.whole ++ (n.fraction.map ('.' :: ·)).getD [] ++
      s.mark :: s.sign.toList) _ hne hd
    simpa [hs, Scale.toList] using hc
  | none =>
    rw [hs, Option.map_none, Option.getD_none, List.append_nil] at hc
    cases hf : n.fraction with
    | none =>
      have hw : n.whole ≠ [] := by simpa [hf] using h.2.1
      have hd : ∀ d ∈ n.whole, d.isDigit := fun d hd => h.1 d (List.mem_append_left _ hd)
      exact .inl (hlast n.sign.toList _ hw hd (by simpa [hf] using hc))
    | some ds =>
      by_cases hne : ds = []
      · right
        simpa [hf, hne, eq_comm] using hc
      · have hd : ∀ d ∈ ds, d.isDigit := fun d hd => h.1 d (by simp [hf, hd])
        left
        apply hlast (n.sign.toList ++ n.whole ++ ['.']) _ hne hd
        simpa [hf] using hc

end Numeral

end WeightTables
