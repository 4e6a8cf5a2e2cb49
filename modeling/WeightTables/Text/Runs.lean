/-! Cutting a text at separators. A run is a longest stretch without a separator. -/

namespace WeightTables

/-- The stretches between separators, one more than there are separators. Some may be empty. -/
def stretches (separator : Char → Prop) [DecidablePred separator] : List Char → List (List Char)
  | [] => [[]]
  | c :: cs =>
    if separator c then [] :: stretches separator cs
    else (stretches separator cs).modifyHead (c :: ·)

def runs (separator : Char → Prop) [DecidablePred separator] (cs : List Char) :
    List (List Char) :=
  (stretches separator cs).filter (· ≠ [])

section

variable {separator : Char → Prop} [DecidablePred separator]

theorem stretches_ne_nil (separator : Char → Prop) [DecidablePred separator] (cs : List Char) :
    stretches separator cs ≠ [] := by
  induction cs with
  | nil => simp [stretches]
  | cons c cs ih =>
    unfold stretches
    split
    · simp
    · simpa [List.modifyHead_eq_nil_iff] using ih

theorem stretches_append_cons {c : Char} (h : separator c) (a b : List Char) :
    stretches separator (a ++ c :: b) = stretches separator a ++ stretches separator b := by
  induction a with
  | nil => simp [stretches, h]
  | cons d a ih =>
    by_cases hd : separator d
    · simp [stretches, hd, ih]
    · obtain ⟨x, xs, hx⟩ := List.exists_cons_of_ne_nil (stretches_ne_nil separator a)
      simp [stretches, hd, ih, hx]

theorem runs_append_cons {c : Char} (h : separator c) (a b : List Char) :
    runs separator (a ++ c :: b) = runs separator a ++ runs separator b := by
  simp [runs, stretches_append_cons h]

end

end WeightTables
