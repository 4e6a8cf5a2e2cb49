/-! Blanks: the characters with the Unicode property `White_Space`. -/

namespace WeightTables

/-- Closed ranges of code points, ascending and apart. -/
abbrev CodeRanges := List (Nat × Nat)

def CodeRanges.Holds (ranges : CodeRanges) (c : Char) : Prop :=
  ranges.any (fun r => r.1 ≤ c.toNat && c.toNat ≤ r.2) = true

instance (ranges : CodeRanges) (c : Char) : Decidable (ranges.Holds c) :=
  inferInstanceAs (Decidable (_ = true))

def blankRanges : CodeRanges :=
  [(0x09, 0x0d), (0x20, 0x20), (0x85, 0x85), (0xa0, 0xa0), (0x1680, 0x1680), (0x2000, 0x200a),
    (0x2028, 0x2029), (0x202f, 0x202f), (0x205f, 0x205f), (0x3000, 0x3000)]

abbrev IsBlank (c : Char) : Prop := blankRanges.Holds c

theorem isBlank_of_isWhitespace {c : Char} (h : c.isWhitespace) : IsBlank c := by
  simp only [Char.isWhitespace, Bool.or_eq_true, decide_eq_true_eq] at h
  rcases h with ((rfl | rfl) | rfl) | rfl <;> decide

end WeightTables
