import WeightTables.Proofs.Weight.TotalOrder
import WeightTables.Summary

/-! The summary of a table is exact. Its extremes are among the values and bound all of them in the
total order, which leaves only one summary and makes the order of the values irrelevant. A search
that takes the values two at a time and compares their keys comes to the same. -/

namespace WeightTables

structure Extremes where
  least : Weight
  greatest : Weight

namespace Extremes

def ofPair (v w : Weight) : Extremes := if w.key < v.key then ⟨w, v⟩ else ⟨v, w⟩

/-- The lower of two further values can only be a new least one, the higher a new greatest one. -/
def widen (e f : Extremes) : Extremes where
  least := if f.least.key < e.least.key then f.least else e.least
  greatest := if f.greatest.key < e.greatest.key then e.greatest else f.greatest

def extend (e : Extremes) (w : Weight) : Extremes :=
  if w.key < e.least.key then { e with least := w }
  else if w.key < e.greatest.key then e
  else { e with greatest := w }

/-- Goes on from the extremes so far, two values at a time. One may be left over at the end. -/
def search : Extremes → List Weight → Extremes
  | e, [] => e
  | e, [w] => e.extend w
  | e, v :: w :: rest => search (e.widen (ofPair v w)) rest

def of? : List Weight → Option Extremes
  | [] => none
  | [w] => some ⟨w, w⟩
  | v :: w :: rest => some (search (ofPair v w) rest)

end Extremes

/-- The summary by way of the search, with the zeros found by comparison as numbers. -/
def Summary.ofPairs (values : List Weight) : Summary :=
  let e := (Extremes.of? values).getD ⟨.zero, .zero⟩
  ⟨values.length, e.least, e.greatest, values.countP fun w => w.NumEq .zero⟩

/-- Extremes that are among the values and bound all of them. -/
structure Bounds (values : List Weight) (e : Extremes) : Prop where
  least_mem : e.least ∈ values
  least_le : ∀ w ∈ values, e.least ≤ w
  greatest_mem : e.greatest ∈ values
  le_greatest : ∀ w ∈ values, w ≤ e.greatest

section

variable {values front rest : List Weight} {e f : Extremes} {v w : Weight}

theorem Extremes.ofPair_eq (v w : Weight) : ofPair v w = ⟨min v w, max v w⟩ := by
  by_cases h : v ≤ w <;> simp [ofPair, Weight.key_lt_iff, Weight.min_eq, Weight.max_eq, h]

theorem Extremes.widen_eq (e f : Extremes) :
    e.widen f = ⟨min e.least f.least, max e.greatest f.greatest⟩ := by
  simp [widen, Weight.key_lt_iff, Weight.min_eq, Weight.max_eq]

/-- A value below the least so far is not compared with the greatest, which it cannot exceed. -/
theorem Bounds.extend_eq (h : Bounds values e) (w : Weight) :
    e.extend w = ⟨min e.least w, max e.greatest w⟩ := by
  have hle := h.least_le _ h.greatest_mem
  by_cases hl : e.least ≤ w
  · by_cases hg : e.greatest ≤ w <;>
      simp [Extremes.extend, Weight.key_lt_iff, Weight.min_eq, Weight.max_eq, hl, hg]
  · have hg : ¬ e.greatest ≤ w := fun hg => hl (Weight.le_trans hle hg)
    simp [Extremes.extend, Weight.key_lt_iff, Weight.min_eq, Weight.max_eq, hl, hg]

theorem bounds_single (w : Weight) : Bounds [w] ⟨w, w⟩ := by
  constructor <;> simp [Std.le_refl]

/-- Of two stretches of values, the extremes are found among the extremes of each. -/
theorem Bounds.append (he : Bounds front e) (hf : Bounds rest f) :
    Bounds (front ++ rest) ⟨min e.least f.least, max e.greatest f.greatest⟩ where
  least_mem := by
    rcases Std.min_eq_or (a := e.least) (b := f.least) with h | h
    · simp [h, he.least_mem]
    · simp [h, hf.least_mem]
  least_le w hw := by
    rcases List.mem_append.mp hw with hw | hw
    · exact Weight.le_trans Std.min_le_left (he.least_le w hw)
    · exact Weight.le_trans Std.min_le_right (hf.least_le w hw)
  greatest_mem := by
    rcases Std.max_eq_or (a := e.greatest) (b := f.greatest) with h | h
    · simp [h, he.greatest_mem]
    · simp [h, hf.greatest_mem]
  le_greatest w hw := by
    rcases List.mem_append.mp hw with hw | hw
    · exact Weight.le_trans (he.le_greatest w hw) Std.left_le_max
    · exact Weight.le_trans (hf.le_greatest w hw) Std.right_le_max

theorem bounds_ofPair (v w : Weight) : Bounds [v, w] (.ofPair v w) := by
  rw [Extremes.ofPair_eq]
  exact (bounds_single v).append (bounds_single w)

theorem Bounds.search (h : Bounds front e) (rest : List Weight) :
    Bounds (front ++ rest) (e.search rest) := by
  induction e, rest using Extremes.search.induct generalizing front with
  | case1 e => simpa [Extremes.search] using h
  | case2 e w =>
    rw [Extremes.search, h.extend_eq]
    exact h.append (bounds_single w)
  | case3 e v w rest ih =>
    have hh := ih (Extremes.widen_eq e _ ▸ h.append (bounds_ofPair v w))
    rw [List.append_assoc] at hh
    exact hh

theorem exists_bounds (h : values ≠ []) :
    ∃ e, Extremes.of? values = some e ∧ Bounds values e := by
  match values with
  | [w] => exact ⟨_, rfl, bounds_single w⟩
  | v :: w :: rest => exact ⟨_, rfl, (bounds_ofPair v w).search rest⟩

theorem bounds_iff :
    Bounds values e ↔ values.min? = some e.least ∧ values.max? = some e.greatest := by
  rw [List.min?_eq_some_iff, List.max?_eq_some_iff]
  exact ⟨fun h => ⟨⟨h.least_mem, h.least_le⟩, h.greatest_mem, h.le_greatest⟩,
    fun h => ⟨h.1.1, h.1.2, h.2.1, h.2.2⟩⟩

theorem Weight.isZero_iff : w.IsZero ↔ w = .ofParts false 0 ∨ w = .ofParts true 0 := by
  constructor
  · intro h
    rw [← w.ofParts_isNegative_magnitude, h]
    cases w.isNegative with
    | false => exact .inl rfl
    | true => exact .inr rfl
  · rintro (rfl | rfl) <;> exact Weight.magnitude_ofParts (by decide)

theorem Weight.numEq_zero_iff : w.NumEq .zero ↔ w.IsZero := by
  have hz : Weight.zero.signed = 0 := by decide
  have hn : ¬ Weight.zero.IsNaN := by decide
  have hw : w.signed = 0 ↔ w.IsZero := by
    rw [Weight.signed]
    split <;> simp
  rw [Weight.NumEq, hz, hw]
  exact ⟨fun h => h.2.2, fun h => ⟨by simp [h], hn, h⟩⟩

/-- What the summary of a list of values has to be. -/
structure Summarizes (values : List Weight) (s : Summary) : Prop where
  length : s.length = values.length
  least : values ≠ [] → s.least ∈ values ∧ ∀ w ∈ values, s.least.Precedes w
  greatest : values ≠ [] → s.greatest ∈ values ∧ ∀ w ∈ values, w.Precedes s.greatest
  zeros : s.zeros = values.countP fun w => w = .ofParts false 0 ∨ w = .ofParts true 0
  empty : values = [] → s.least = .ofParts false 0 ∧ s.greatest = .ofParts false 0

variable {s : Summary}

theorem Summarizes.bounds (h : Summarizes values s) (hne : values ≠ []) :
    Bounds values ⟨s.least, s.greatest⟩ := by
  obtain ⟨hl, hle⟩ := h.least hne
  obtain ⟨hg, hge⟩ := h.greatest hne
  exact ⟨hl, fun w hw => Weight.le_iff_precedes.mpr (hle w hw), hg,
    fun w hw => Weight.le_iff_precedes.mpr (hge w hw)⟩

theorem summarizes_of_bounds (hl : s.length = values.length)
    (hb : values ≠ [] → Bounds values ⟨s.least, s.greatest⟩)
    (hz : s.zeros = values.countP fun w => w.IsZero)
    (he : values = [] → s.least = .zero ∧ s.greatest = .zero) : Summarizes values s where
  length := hl
  least hne := ⟨(hb hne).least_mem, fun w hw => Weight.le_iff_precedes.mp ((hb hne).least_le w hw)⟩
  greatest hne :=
    ⟨(hb hne).greatest_mem, fun w hw => Weight.le_iff_precedes.mp ((hb hne).le_greatest w hw)⟩
  zeros := by simpa only [Weight.isZero_iff] using hz
  empty := he

theorem summarizes_of (values : List Weight) : Summarizes values (.of values) := by
  refine summarizes_of_bounds rfl (fun hne => ?_) rfl (fun he => ?_)
  · obtain ⟨e, _, he⟩ := exists_bounds hne
    obtain ⟨hmin, hmax⟩ := bounds_iff.mp he
    simpa [Summary.of, hmin, hmax] using he
  · rw [he]
    exact ⟨rfl, rfl⟩

theorem summarizes_ofPairs (values : List Weight) : Summarizes values (.ofPairs values) := by
  refine summarizes_of_bounds rfl (fun hne => ?_) ?_ (fun he => ?_)
  · obtain ⟨e, hs, he⟩ := exists_bounds hne
    simpa [Summary.ofPairs, hs] using he
  · simp only [Summary.ofPairs, Weight.numEq_zero_iff]
  · rw [he]
    exact ⟨rfl, rfl⟩

/-- The bounds of the values leave no choice for a summary. -/
theorem Summarizes.eq_of (h : Summarizes values s) : s = .of values := by
  have hs := summarizes_of values
  have hends : s.least = (Summary.of values).least ∧ s.greatest = (Summary.of values).greatest := by
    by_cases hne : values = []
    · obtain ⟨hl, hg⟩ := h.empty hne
      obtain ⟨hl', hg'⟩ := hs.empty hne
      exact ⟨hl.trans hl'.symm, hg.trans hg'.symm⟩
    · obtain ⟨hmin, hmax⟩ := bounds_iff.mp (h.bounds hne)
      obtain ⟨hmin', hmax'⟩ := bounds_iff.mp (hs.bounds hne)
      exact ⟨Option.some.inj (hmin.symm.trans hmin'), Option.some.inj (hmax.symm.trans hmax')⟩
  have hl := h.length.trans hs.length.symm
  have hz := h.zeros.trans hs.zeros.symm
  obtain ⟨length, least, greatest, zeros⟩ := s
  obtain ⟨hmin, hmax⟩ := hends
  subst hl hmin hmax hz
  rfl

theorem Summarizes.perm {permuted : List Weight} (h : Summarizes values s)
    (hp : permuted.Perm values) : Summarizes permuted s where
  length := h.length.trans hp.length_eq.symm
  least hne := by
    obtain ⟨hl, hle⟩ := h.least fun he => hne (he ▸ hp).eq_nil
    exact ⟨hp.mem_iff.mpr hl, fun w hw => hle w (hp.mem_iff.mp hw)⟩
  greatest hne := by
    obtain ⟨hg, hge⟩ := h.greatest fun he => hne (he ▸ hp).eq_nil
    exact ⟨hp.mem_iff.mpr hg, fun w hw => hge w (hp.mem_iff.mp hw)⟩
  zeros := h.zeros.trans (hp.countP_eq _).symm
  empty he := h.empty (he ▸ hp).symm.eq_nil

end

/-- The summary is the one with the extremes and the zeros of the values, in whatever order these
are, and the search in pairs finds it. -/
theorem summary_isExact (values : List Weight) :
    (∀ s : Summary, Summarizes values s ↔ s = .of values) ∧
      (∀ permuted : List Weight, permuted.Perm values → Summary.of permuted = .of values) ∧
      Summary.ofPairs values = .of values := by
  refine ⟨fun s => ⟨Summarizes.eq_of, fun h => h ▸ summarizes_of values⟩, fun permuted hp => ?_,
    (summarizes_ofPairs values).eq_of⟩
  exact ((summarizes_of values).perm hp).eq_of.symm

/-- A negative pattern that is no number comes before all others, and the zeros are told apart. -/
theorem summary_isExact_small :
    Summary.of [⟨0⟩, ⟨0xff800001⟩, ⟨0x80000000⟩] = ⟨3, ⟨0xff800001⟩, ⟨0⟩, 2⟩ ∧
      Summary.of [⟨0x80000000⟩, ⟨0⟩, ⟨0xff800001⟩] = ⟨3, ⟨0xff800001⟩, ⟨0⟩, 2⟩ := by
  have hs : Summary.of [⟨0⟩, ⟨0xff800001⟩, ⟨0x80000000⟩] = ⟨3, ⟨0xff800001⟩, ⟨0⟩, 2⟩ := by decide
  have hp := (summary_isExact [⟨0⟩, ⟨0xff800001⟩, ⟨0x80000000⟩]).2.1
    [⟨0x80000000⟩, ⟨0⟩, ⟨0xff800001⟩] (by decide)
  exact ⟨hs, hp.trans hs⟩

end WeightTables
