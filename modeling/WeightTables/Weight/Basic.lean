/-! Single-precision weights as bit patterns. The top bit is the sign and the other bits are the
magnitude. Finite magnitudes number the representable values upwards from zero, and each one
stands for a whole number of units, of which there are `2 ^ 149` in one. -/

namespace WeightTables

structure Weight where
  bits : UInt32
  deriving DecidableEq

namespace Weight

/-- The sign as a bit of the pattern. Magnitudes are below it. -/
abbrev signBit : Nat := 0x80000000

/-- The magnitude of the infinities. Those below it are finite, those above it are no numbers. -/
abbrev infinity : Nat := 0x7f800000

abbrev binade : Nat := 0x800000

def isNegative (w : Weight) : Bool := decide (signBit ≤ w.bits.toNat)

def magnitude (w : Weight) : Nat := w.bits.toNat % signBit

def ofParts (negative : Bool) (magnitude : Nat) : Weight :=
  ⟨UInt32.ofNat (if negative then signBit + magnitude else magnitude)⟩

def zero : Weight := ofParts false 0

abbrev IsFinite (w : Weight) : Prop := w.magnitude < infinity

abbrev IsNaN (w : Weight) : Prop := infinity < w.magnitude

abbrev IsZero (w : Weight) : Prop := w.magnitude = 0

theorem ext_bits {v w : Weight} (h : v.bits.toNat = w.bits.toNat) : v = w := by
  obtain ⟨a⟩ := v
  obtain ⟨b⟩ := w
  exact congrArg Weight.mk (UInt32.toNat_inj.mp h)

theorem magnitude_lt (w : Weight) : w.magnitude < signBit := Nat.mod_lt _ (by decide)

theorem toNat_bits_ofParts {negative : Bool} {m : Nat} (h : m < signBit) :
    (ofParts negative m).bits.toNat = if negative then signBit + m else m := by
  unfold signBit at h
  cases negative with
  | false =>
    simp only [ofParts, UInt32.toNat_ofNat', Bool.false_eq_true, if_false]
    omega
  | true =>
    simp only [ofParts, signBit, UInt32.toNat_ofNat', if_true]
    omega

theorem magnitude_ofParts {negative : Bool} {m : Nat} (h : m < signBit) :
    (ofParts negative m).magnitude = m := by
  rw [magnitude, toNat_bits_ofParts h]
  cases negative with
  | false => exact Nat.mod_eq_of_lt h
  | true => rw [if_pos rfl, Nat.add_mod_left, Nat.mod_eq_of_lt h]

theorem isNegative_ofParts {negative : Bool} {m : Nat} (h : m < signBit) :
    (ofParts negative m).isNegative = negative := by
  rw [isNegative, toNat_bits_ofParts h]
  cases negative with
  | false => exact decide_eq_false (Nat.not_le.mpr h)
  | true => exact decide_eq_true (Nat.le_add_right _ _)

theorem ofParts_isNegative_magnitude (w : Weight) : ofParts w.isNegative w.magnitude = w := by
  have hw := w.bits.toNat_lt
  refine ext_bits ?_
  rw [toNat_bits_ofParts w.magnitude_lt]
  simp only [isNegative, magnitude, signBit, decide_eq_true_eq]
  split
  · omega
  · omega

/-- The binary places by which the significand of a magnitude is moved up. The lowest two binades
share the least of them. -/
def shift (m : Nat) : Nat := m / binade - 1

def significand (m : Nat) : Nat := m - shift m * binade

def units (m : Nat) : Nat := significand m <<< shift m

def unitsPerOne : Nat := 1 <<< 149

end Weight

end WeightTables
