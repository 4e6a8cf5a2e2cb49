import WeightTables.Proofs.Decimal
import WeightTables.Weight.Shortest
import Mathlib.Data.Nat.Cast.Order.Field

/-! The shortest decimal of a magnitude. What reads back as a magnitude is an interval around its
exact value, so on a grid of decimals one of the two neighbours of the exact value reads back if any
decimal does. The first grid with a hit therefore gives the fewest digits, and the nearer neighbour
is as near as any decimal with that many digits. -/

namespace WeightTables

/-- A decimal with at most `k` digits before its power of ten. -/
def HasDigits (x : ℚ) (k : Nat) : Prop :=
  ∃ (c : Nat) (e : Int), c < 10 ^ k ∧ x = (Decimal.mk c e).value

theorem Decimal.value_mk (c : Nat) (e : Int) : (Decimal.mk c e).value = c * 10 ^ e := rfl

theorem Decimal.value_one (e : Int) : (Decimal.mk 1 e).value = 10 ^ e := by
  rw [value_mk, Nat.cast_one, one_mul]

theorem ten_zpow_pos (e : Int) : (0 : ℚ) < 10 ^ e := zpow_pos (by norm_num) e

theorem Decimal.value_mono {b c : Nat} (h : b ≤ c) (e : Int) :
    (Decimal.mk b e).value ≤ (Decimal.mk c e).value :=
  mul_le_mul_of_nonneg_right (Nat.cast_le.mpr h) (ten_zpow_pos e).le

/-- A decimal on a grid is on every finer grid as well. -/
theorem Decimal.value_shift (c : Nat) (e : Int) (k : Nat) :
    (Decimal.mk c e).value = (Decimal.mk (c * 10 ^ k) (e - k)).value := by
  have hp : (10 : ℚ) ^ e = 10 ^ k * 10 ^ (e - k) := by
    rw [← zpow_natCast, ← zpow_add₀ (by norm_num)]
    congr 1
    omega
  rw [value_mk, value_mk, hp]
  push_cast
  ring

theorem HasDigits.mono {x : ℚ} {j k : Nat} (h : HasDigits x j) (hjk : j ≤ k) : HasDigits x k := by
  obtain ⟨c, e, hc, hx⟩ := h
  exact ⟨c, e, hc.trans_le (Nat.pow_le_pow_right (by decide) hjk), hx⟩

theorem findSome?_range_eq_some {α : Type} {f : Nat → Option α} {count : Nat} {a : α}
    (h : (List.range count).findSome? f = some a) :
    ∃ n, n < count ∧ f n = some a ∧ ∀ k, k < n → f k = none := by
  obtain ⟨before, n, after, hr, ha, hb⟩ := List.findSome?_eq_some_iff.mp h
  rw [List.range_eq_range', List.range'_eq_append_iff] at hr
  obtain ⟨k, hk, rfl, hr⟩ := hr
  obtain ⟨rfl, hlt, _⟩ := List.range'_eq_cons_iff.mp hr.symm
  refine ⟨_, by omega, ha, fun j hj => hb j ?_⟩
  rw [List.mem_range'_1]
  omega

namespace Weight

theorem RoundsTo.between {x y z : ℚ} {m : Nat} (hx : RoundsTo x m) (hz : RoundsTo z m)
    (hxy : x ≤ y) (hyz : y ≤ z) : RoundsTo y m where
  le_upper := hyz.trans hz.le_upper
  even_of_upper h := hz.even_of_upper (le_antisymm hz.le_upper (h ▸ hyz))
  lower_le k hk := (hx.lower_le k hk).trans hxy
  even_of_lower k hk h := hx.even_of_lower k hk (le_antisymm (h ▸ hxy) (hx.lower_le k hk))

theorem RoundsTo.pos {x : ℚ} {m : Nat} (hm : m ≠ 0) (h : RoundsTo x m) : 0 < x := by
  by_contra hx
  have h0 : RoundsTo x 0 := by
    apply roundsTo_zero
    rw [halfway_zero]
    exact (le_of_not_gt hx).trans (by positivity)
  exact hm (h.unique h0)

/-- The whole steps of the grid `10 ^ e` in the exact value of a magnitude. -/
def steps (m : Nat) (e : Int) : Nat :=
  units m * tenPow (-e).toNat / (unitsPerOne * tenPow e.toNat)

def below (m : Nat) (e : Int) : Decimal := ⟨steps m e, e⟩

def above (m : Nat) (e : Int) : Decimal := ⟨steps m e + 1, e⟩

section

variable {m : Nat} {e : Int} {d : Decimal}

theorem grid_quotient (m : Nat) (e : Int) :
    ((units m * tenPow (-e).toNat : Nat) / (unitsPerOne * tenPow e.toNat : Nat) : ℚ) * 10 ^ e =
      exact m := by
  have hu := unitsPerOne_pos.ne'
  have hne : ∀ n, ((tenPow n : Nat) : ℚ) ≠ 0 := fun n => by simp [Decimal.tenPow_eq]
  have hs : e = (e.toNat : Int) - ((-e).toNat : Int) := by omega
  have he : (10 : ℚ) ^ e = (tenPow e.toNat : Nat) / (tenPow (-e).toNat : Nat) := by
    conv_lhs => rw [hs, zpow_sub₀ (by norm_num), zpow_natCast, zpow_natCast]
    rw [Decimal.tenPow_eq, Decimal.tenPow_eq, Nat.cast_pow, Nat.cast_pow]
    rfl
  have hp := hne e.toNat
  have hn := hne (-e).toNat
  rw [he, exact]
  push_cast
  field_simp

theorem exact_eq_steps (m : Nat) (e : Int) :
    exact m = (steps m e + (units m * tenPow (-e).toNat % (unitsPerOne * tenPow e.toNat) : Nat) /
      (unitsPerOne * tenPow e.toNat : Nat)) * 10 ^ e := by
  have hq := grid_quotient m e
  have hd : 0 < unitsPerOne * tenPow e.toNat :=
    Nat.mul_pos (Nat.cast_pos.mp unitsPerOne_pos) (Nat.pow_pos (by decide))
  rw [steps]
  generalize units m * tenPow (-e).toNat = num at *
  generalize unitsPerOne * tenPow e.toNat = den at *
  have hden : (den : ℚ) ≠ 0 := Nat.cast_ne_zero.mpr hd.ne'
  have hsplit : (num : ℚ) = den * (num / den : Nat) + (num % den : Nat) := by
    exact_mod_cast (Nat.div_add_mod num den).symm
  rw [← hq, hsplit]
  field_simp

/-- The exact value of a magnitude between its two neighbours on a grid, and which is nearer. -/
theorem exact_between (m : Nat) (e : Int) :
    (below m e).value ≤ exact m ∧
      exact m < (above m e).value ∧
      (2 * (units m * tenPow (-e).toNat % (unitsPerOne * tenPow e.toNat)) <
          unitsPerOne * tenPow e.toNat ↔
        exact m - (below m e).value < (above m e).value - exact m) := by
  have hx := exact_eq_steps m e
  have hd : 0 < unitsPerOne * tenPow e.toNat :=
    Nat.mul_pos (Nat.cast_pos.mp unitsPerOne_pos) (Nat.pow_pos (by decide))
  have hl := Nat.mod_lt (units m * tenPow (-e).toNat) hd
  generalize units m * tenPow (-e).toNat % (unitsPerOne * tenPow e.toNat) = rest at *
  generalize unitsPerOne * tenPow e.toNat = den at *
  have hden : (0 : ℚ) < den := Nat.cast_pos.mpr hd
  have hp := ten_zpow_pos e
  have h0 : (0 : ℚ) ≤ rest / den := by positivity
  have h1 : (rest / den : ℚ) < 1 := (div_lt_one hden).mpr (Nat.cast_lt.mpr hl)
  have h2 : 2 * rest < den ↔ 2 * (rest / den : ℚ) < 1 := by
    rw [← mul_div_assoc, div_lt_one hden]
    exact_mod_cast Iff.rfl
  have hb : exact m - (below m e).value = rest / den * 10 ^ e := by
    rw [hx, below, Decimal.value_mk]
    ring
  have ha : (above m e).value - exact m = (1 - rest / den) * 10 ^ e := by
    rw [hx, above, Decimal.value_mk]
    push_cast
    ring
  refine ⟨sub_nonneg.mp ?_, sub_pos.mp ?_, ?_⟩
  · rw [hb]
    exact mul_nonneg h0 hp.le
  · rw [ha]
    exact mul_pos (sub_pos.mpr h1) hp
  · rw [h2, hb, ha, mul_lt_mul_iff_left₀ hp]
    constructor <;> intro h <;> linarith

/-- A decimal of a grid that reads back has a neighbour of the exact value on its side that does. -/
theorem RoundsTo.neighbour {c : Nat} (h : RoundsTo (Decimal.mk c e).value m) :
    (Decimal.mk c e).value ≤ (below m e).value ∧ RoundsTo (below m e).value m ∨
      (above m e).value ≤ (Decimal.mk c e).value ∧ RoundsTo (above m e).value m := by
  obtain ⟨hb, ha, _⟩ := exact_between m e
  have hv := roundsTo_exact m
  rcases Nat.lt_or_ge (steps m e) c with hc | hc
  · have hle := Decimal.value_mono hc e
    exact .inr ⟨hle, hv.between h ha.le hle⟩
  · have hle := Decimal.value_mono hc e
    exact .inl ⟨hle, h.between hv hle hb⟩

theorem onGrid?_cases (hm : m < infinity) (e : Int) :
    (onGrid? m e = some (below m e) ∧ RoundsTo (below m e).value m ∧
        (RoundsTo (above m e).value m →
          exact m - (below m e).value ≤ (above m e).value - exact m)) ∨
      (onGrid? m e = some (above m e) ∧ RoundsTo (above m e).value m ∧
        (RoundsTo (below m e).value m →
          (above m e).value - exact m ≤ exact m - (below m e).value)) ∨
      (onGrid? m e = none ∧ ¬ RoundsTo (below m e).value m ∧
        ¬ RoundsTo (above m e).value m) := by
  obtain ⟨_, _, htie⟩ := exact_between m e
  have hb := @Decimal.magnitude_eq_iff (below m e) m hm
  have ha := @Decimal.magnitude_eq_iff (above m e) m hm
  rw [← hb, ← ha]
  have hdef : onGrid? m e =
      if (below m e).magnitude = m ∧
          ((above m e).magnitude ≠ m ∨
            2 * (units m * tenPow (-e).toNat % (unitsPerOne * tenPow e.toNat)) <
              unitsPerOne * tenPow e.toNat) then some (below m e)
      else if (above m e).magnitude = m then some (above m e)
      else none := rfl
  rw [hdef]
  split
  · rename_i hc
    exact .inl ⟨rfl, hc.1, fun habove => (htie.mp (hc.2.resolve_left (not_not.mpr habove))).le⟩
  · rename_i hc
    split
    · rename_i habove
      refine .inr (.inl ⟨rfl, habove, fun hbelow => le_of_not_gt fun hlt => ?_⟩)
      exact hc ⟨hbelow, .inr (htie.mpr hlt)⟩
    · rename_i habove
      exact .inr (.inr ⟨rfl, fun hbelow => hc ⟨hbelow, .inl habove⟩, habove⟩)

/-- What the search on one grid finds: a neighbour of the exact value that reads back, and none on
the grid that reads back is nearer. -/
structure OnGrid (m : Nat) (e : Int) (d : Decimal) : Prop where
  neighbour : d = below m e ∨ d = above m e
  readsBack : RoundsTo d.value m
  nearest : ∀ c, RoundsTo (Decimal.mk c e).value m →
    |exact m - d.value| ≤ |exact m - (Decimal.mk c e).value|

theorem onGrid_of_onGrid? (hm : m < infinity) (h : onGrid? m e = some d) : OnGrid m e d := by
  obtain ⟨hb, ha, _⟩ := exact_between m e
  have hbelow := abs_of_nonneg (sub_nonneg.mpr hb)
  have habove := abs_of_nonpos (sub_nonpos.mpr ha.le)
  rcases onGrid?_cases hm e with ⟨ho, hr, hn⟩ | ⟨ho, hr, hn⟩ | ⟨ho, _, _⟩
  · obtain rfl := Option.some.inj (h.symm.trans ho)
    refine ⟨.inl rfl, hr, fun c hc => hbelow.trans_le ?_⟩
    rcases hc.neighbour with ⟨hle, _⟩ | ⟨hle, har⟩
    · rw [abs_of_nonneg (sub_nonneg.mpr (hle.trans hb))]
      linarith
    · rw [abs_of_nonpos (sub_nonpos.mpr (ha.le.trans hle))]
      linarith [hn har]
  · obtain rfl := Option.some.inj (h.symm.trans ho)
    refine ⟨.inr rfl, hr, fun c hc => habove.trans_le ?_⟩
    rcases hc.neighbour with ⟨hle, hbr⟩ | ⟨hle, _⟩
    · rw [abs_of_nonneg (sub_nonneg.mpr (hle.trans hb))]
      linarith [hn hbr]
    · rw [abs_of_nonpos (sub_nonpos.mpr (ha.le.trans hle))]
      linarith
  · exact absurd (h.symm.trans ho) (by simp)

theorem not_roundsTo_of_onGrid? (hm : m < infinity) (h : onGrid? m e = none) (c : Nat) :
    ¬ RoundsTo (Decimal.mk c e).value m := by
  intro hc
  rcases onGrid?_cases hm e with ⟨ho, _, _⟩ | ⟨ho, _, _⟩ | ⟨_, hb, ha⟩
  · exact absurd (h.symm.trans ho) (by simp)
  · exact absurd (h.symm.trans ho) (by simp)
  · exact hc.neighbour.elim (fun hn => hb hn.2) fun hn => ha hn.2

theorem leadingExponent_spec (hm : m ≠ 0) :
    (10 : ℚ) ^ (leadingExponent m - 1) ≤ exact m ∧ exact m < 10 ^ leadingExponent m := by
  have hu : 0 < unitsPerOne := Nat.cast_pos.mp unitsPerOne_pos
  have hpos : 0 < units m * tenPow 45 / unitsPerOne := by
    have hum : 0 < units m := (Nat.zero_le _).trans_lt (units_strictMono (Nat.pos_of_ne_zero hm))
    exact Nat.div_pos ((Nat.le_mul_of_pos_left _ hum).trans' (by decide +kernel)) hu
  -- the exact value, scaled by the 45 places that every finite weight fits into
  have hv : exact m * 10 ^ 45 = (units m * tenPow 45 : Nat) / unitsPerOne := by
    rw [exact, Decimal.tenPow_eq]
    push_cast
    ring
  have hlow : ((units m * tenPow 45 / unitsPerOne : Nat) : ℚ) ≤ exact m * 10 ^ 45 :=
    hv ▸ Nat.cast_div_le
  have hhigh : exact m * 10 ^ 45 < (units m * tenPow 45 / unitsPerOne : Nat) + 1 := by
    rw [hv, div_lt_iff₀ unitsPerOne_pos]
    exact_mod_cast Nat.lt_mul_of_div_lt (Nat.lt_succ_self _) hu
  rw [leadingExponent]
  generalize units m * tenPow 45 / unitsPerOne = q at *
  obtain ⟨k, hk⟩ : ∃ k, (Nat.toDigits 10 q).length = k + 1 :=
    Nat.exists_eq_add_one.mpr (List.length_pos_iff.mpr Nat.toDigits_ne_nil)
  obtain ⟨hql, hqu⟩ := (length_digits_eq_iff hpos).mp hk
  have hup : (q : ℚ) + 1 ≤ 10 ^ (k + 1) := by exact_mod_cast hqu
  have hlo : (10 : ℚ) ^ k ≤ q := by exact_mod_cast hql
  rw [hk]
  constructor
  · rw [show ((k + 1 : Nat) - 45 - 1 : Int) = (k : Int) - (45 : Nat) by omega,
      zpow_sub₀ (by norm_num), zpow_natCast, zpow_natCast, div_le_iff₀ (by positivity)]
    linarith
  · rw [show ((k + 1 : Nat) - 45 : Int) = ((k + 1 : Nat) : Int) - (45 : Nat) by omega,
      zpow_sub₀ (by norm_num), zpow_natCast, zpow_natCast, lt_div_iff₀ (by positivity)]
    linarith

/-- Below its exact value, a magnitude has room for more than one part in `2 ^ 25` of that value. -/
theorem roundsTo_of_just_below {x : ℚ} (hm : m ≠ 0) (hx : x ≤ exact m)
    (hnear : exact m - x < exact m / 2 ^ 25) : RoundsTo x m := by
  obtain ⟨k, rfl⟩ := Nat.exists_eq_add_one.mpr (Nat.pos_of_ne_zero hm)
  have hu : (units (k + 1) : ℚ) ≤ 2 ^ 24 * (units (k + 1) - units k) := by
    have hs : significand k + 1 ≤ 2 ^ 24 := significand_lt k
    rw [units_succ, units_eq]
    push_cast
    rw [add_sub_cancel_left, ← add_one_mul]
    exact mul_le_mul_of_nonneg_right (by exact_mod_cast hs) (by positivity)
  have hv : exact (k + 1) ≤ 2 ^ 24 * (exact (k + 1) - exact k) := by
    rw [exact, exact, ← sub_div, ← mul_div_assoc]
    exact div_le_div_of_nonneg_right hu unitsPerOne_pos.le
  have hk : halfway k < x := by
    rw [halfway]
    linarith
  refine ⟨hx.trans (exact_lt_halfway _).le, fun h => ?_, fun j hj => ?_, fun j hj h => ?_⟩
  · exact absurd (h ▸ hx) (exact_lt_halfway _).not_ge
  · exact Nat.succ.inj hj ▸ hk.le
  · exact absurd h (Nat.succ.inj hj ▸ hk.ne')

theorem onGrid?_nine (hm : m ≠ 0) (hf : m < infinity) :
    onGrid? m (leadingExponent m - 9) ≠ none := by
  obtain ⟨hb, ha, _⟩ := exact_between m (leadingExponent m - 9)
  obtain ⟨hl, _⟩ := leadingExponent_spec hm
  have hstep : (10 : ℚ) ^ (leadingExponent m - 1) = 10 ^ (leadingExponent m - 9) * 10 ^ 8 := by
    rw [← zpow_natCast, ← zpow_add₀ (by norm_num)]
    congr 1
    omega
  have hp := ten_zpow_pos (leadingExponent m - 9)
  have hgap : (above m (leadingExponent m - 9)).value - (below m (leadingExponent m - 9)).value =
      10 ^ (leadingExponent m - 9) := by
    rw [above, below, Decimal.value_mk, Decimal.value_mk]
    push_cast
    ring
  intro h
  refine not_roundsTo_of_onGrid? hf h _ (roundsTo_of_just_below hm hb ?_)
  rw [hstep] at hl
  change exact m - (below m (leadingExponent m - 9)).value < exact m / 2 ^ 25
  linarith

/-- The search ends on the coarsest grid on which a decimal reads back. -/
structure FirstGrid (m n : Nat) : Prop where
  found : OnGrid m (leadingExponent m - n) (shortest m)
  coarsest : ∀ k c : Nat, RoundsTo (Decimal.mk c (leadingExponent m - k)).value m → n ≤ k

theorem exists_firstGrid (hm : m ≠ 0) (hf : m < infinity) : ∃ n, FirstGrid m n := by
  cases hs : (List.range 10).findSome? fun n => onGrid? m (leadingExponent m - (n : Nat)) with
  | none =>
    have h9 := List.findSome?_eq_none_iff.mp hs 9 (by decide)
    exact absurd h9 (onGrid?_nine hm hf)
  | some d =>
    obtain ⟨n, _, hd, hb⟩ := findSome?_range_eq_some hs
    have hd' : shortest m = d := by rw [shortest, if_neg hm, hs, Option.getD_some]
    refine ⟨n, hd' ▸ onGrid_of_onGrid? hf hd, fun k c hr => ?_⟩
    by_contra hlt
    exact not_roundsTo_of_onGrid? hf (hb k (Nat.lt_of_not_le hlt)) c hr

theorem ten_zpow_leadingExponent (m : Nat) :
    (10 : ℚ) ^ leadingExponent m = 10 * 10 ^ (leadingExponent m - 1) := by
  rw [← zpow_one_add₀ (by norm_num)]
  congr 1
  omega

theorem nine_mul_halfway_lt {k : Nat} (hk : 9 ≤ k) : 9 * halfway (k + 1) < 10 * halfway k := by
  have hs : 10 ≤ significand (k + 1) := by
    rw [significand, shift, binade]
    omega
  have hpow : 2 ^ shift k ≤ 2 ^ shift (k + 1) :=
    Nat.pow_le_pow_right (by decide) (shift_mono (Nat.le_succ k))
  have hpos : 0 < 2 ^ shift (k + 1) := Nat.two_pow_pos _
  have hu : 10 * 2 ^ shift (k + 1) ≤ units (k + 1) := by
    rw [units_eq]
    exact Nat.mul_le_mul_right _ hs
  have hk1 := units_succ k
  have hk2 : units (k + 2) = units (k + 1) + 2 ^ shift (k + 1) := units_succ (k + 1)
  have hlt : 9 * (units (k + 1) + units (k + 2)) < 10 * (units k + units (k + 1)) := by omega
  have hq : (9 * (units (k + 1) + units (k + 2)) : ℚ) < 10 * (units k + units (k + 1)) := by
    exact_mod_cast hlt
  rw [halfway, halfway, exact, exact, exact, ← add_div, ← add_div, div_div, div_div,
    ← mul_div_assoc, ← mul_div_assoc]
  exact div_lt_div_of_pos_right hq (mul_pos unitsPerOne_pos two_pos)

/-- The interval of a magnitude is too narrow for both `9` and `10` in its leading place. -/
theorem not_roundsTo_nine_and_ten (hm : m ≠ 0)
    (h9 : RoundsTo (Decimal.mk 9 (leadingExponent m - 1)).value m) :
    ¬ RoundsTo (Decimal.mk 1 (leadingExponent m)).value m := by
  intro h10
  by_cases hbig : 10 ≤ m
  · obtain ⟨k, rfl⟩ := Nat.exists_eq_add_one.mpr (Nat.pos_of_ne_zero hm)
    have hlow := h9.lower_le k rfl
    have hhigh := h10.le_upper
    have hlt := @nine_mul_halfway_lt k (by omega)
    rw [Decimal.value_mk] at hlow
    rw [Decimal.value_one, ten_zpow_leadingExponent] at hhigh
    push_cast at hlow
    linarith
  · have hf : m < infinity := Nat.lt_trans (Nat.lt_of_not_le hbig) (by decide)
    have hsmall : ∀ m < 10, m ≠ 0 → (Decimal.mk 9 (leadingExponent m - 1)).magnitude = m →
        (Decimal.mk 1 (leadingExponent m)).magnitude ≠ m := by decide +kernel
    exact hsmall m (Nat.lt_of_not_le hbig) hm ((Decimal.magnitude_eq_iff hf).mpr h9)
      ((Decimal.magnitude_eq_iff hf).mpr h10)

/-- A decimal that reads back lies above the leading place, below it, or on the grid that its digits
reach from there. In each case a decimal of a known grid reads back. -/
theorem RoundsTo.place {x : ℚ} {k : Nat} (hm : m ≠ 0) (hx : RoundsTo x m) (hk : HasDigits x k) :
    1 ≤ k ∧
      ((10 ^ leadingExponent m ≤ x ∧ RoundsTo (Decimal.mk 1 (leadingExponent m)).value m) ∨
        (x < 10 ^ (leadingExponent m - 1) ∧
          RoundsTo (Decimal.mk 1 (leadingExponent m - 1)).value m) ∨
        (x < 10 ^ leadingExponent m ∧ ∃ c, x = (Decimal.mk c (leadingExponent m - k)).value)) := by
  obtain ⟨hl, hu⟩ := leadingExponent_spec hm
  have hv := roundsTo_exact m
  have hpos := hx.pos hm
  obtain ⟨c, e, hc, rfl⟩ := hk
  have hc0 : c ≠ 0 := by
    rintro rfl
    simp [Decimal.value_mk] at hpos
  have hk0 : k ≠ 0 := by
    rintro rfl
    exact hc0 (Nat.lt_one_iff.mp hc)
  refine ⟨Nat.pos_of_ne_zero hk0, ?_⟩
  rcases le_or_gt (10 ^ leadingExponent m) (Decimal.mk c e).value with habove | hbelow
  · exact .inl ⟨habove, hv.between hx ((Decimal.value_one _).symm ▸ hu.le)
      ((Decimal.value_one _).symm ▸ habove)⟩
  · rcases lt_or_ge (Decimal.mk c e).value (10 ^ (leadingExponent m - 1)) with hlow | hin
    · exact .inr (.inl ⟨hlow, hx.between hv ((Decimal.value_one _).symm ▸ hlow.le)
        ((Decimal.value_one _).symm ▸ hl)⟩)
    · -- with `k` digits at most, the last one stands no further down than place `k`
      have he : leadingExponent m - k ≤ e := by
        have hlt : (10 : ℚ) ^ (leadingExponent m - 1) < 10 ^ ((k : Int) + e) := by
          refine hin.trans_lt ?_
          rw [Decimal.value_mk, zpow_add₀ (by norm_num), zpow_natCast]
          exact mul_lt_mul_of_pos_right (by exact_mod_cast hc) (ten_zpow_pos e)
        have := (zpow_lt_zpow_iff_right₀ (by norm_num)).mp hlt
        omega
      obtain ⟨j, hj⟩ := Int.eq_ofNat_of_zero_le (sub_nonneg.mpr he)
      have hgrid : leadingExponent m - k = e - j := by omega
      exact .inr (.inr ⟨hbelow, c * 10 ^ j, hgrid ▸ Decimal.value_shift c e j⟩)

theorem OnGrid.hasDigits {n : Nat} (hm : m ≠ 0) (h : OnGrid m (leadingExponent m - n) d) :
    HasDigits d.value (max n 1) := by
  have hs : steps m (leadingExponent m - n) < 10 ^ n := by
    obtain ⟨hb, _, _⟩ := exact_between m (leadingExponent m - n)
    have hlt := hb.trans_lt (leadingExponent_spec hm).2
    have hone := Decimal.value_shift 1 (leadingExponent m) n
    rw [Decimal.value_one, one_mul, Decimal.value_mk] at hone
    rw [hone, below, Decimal.value_mk, mul_lt_mul_iff_left₀ (ten_zpow_pos _)] at hlt
    exact_mod_cast hlt
  have hpow : 10 ^ n ≤ 10 ^ max n 1 := Nat.pow_le_pow_right (by decide) (le_max_left n 1)
  rcases h.neighbour with rfl | rfl
  · exact ⟨_, _, hs.trans_le hpow, rfl⟩
  · rcases Nat.lt_or_eq_of_le (Nat.succ_le_of_lt hs) with hlt | heq
    · exact ⟨_, _, hlt.trans_le hpow, rfl⟩
    · refine ⟨1, leadingExponent m, Nat.one_lt_pow (by omega) (by decide), ?_⟩
      rw [Decimal.value_shift 1 (leadingExponent m) n, one_mul, ← heq]
      rfl

/-- A hit in the leading place leaves room for nothing that ends one place further down. -/
theorem OnGrid.nine_lt (hm : m ≠ 0) (h : OnGrid m (leadingExponent m) d) {x : ℚ}
    (hx : RoundsTo x m) : (Decimal.mk 9 (leadingExponent m - 1)).value < x := by
  by_contra hle
  obtain ⟨c, rfl⟩ : ∃ c, d = ⟨c, leadingExponent m⟩ :=
    h.neighbour.elim (fun hd => ⟨_, hd⟩) fun hd => ⟨_, hd⟩
  have hc : 1 ≤ c := by
    apply Nat.pos_of_ne_zero
    rintro rfl
    exact (h.readsBack.pos hm).ne' (by simp [Decimal.value_mk])
  have h10 := (leadingExponent_spec hm).2.le
  have h9 : (Decimal.mk 9 (leadingExponent m - 1)).value ≤
      (Decimal.mk 1 (leadingExponent m)).value := by
    have hp := ten_zpow_pos (leadingExponent m - 1)
    rw [Decimal.value_one, Decimal.value_mk, ten_zpow_leadingExponent]
    push_cast
    linarith
  have hten : RoundsTo (Decimal.mk 1 (leadingExponent m)).value m :=
    (roundsTo_exact m).between h.readsBack ((Decimal.value_one _).symm ▸ h10)
      (Decimal.value_mono hc _)
  exact not_roundsTo_nine_and_ten hm (hx.between hten (le_of_not_gt hle) h9) hten

theorem FirstGrid.le_digits {n k : Nat} {x : ℚ} (h : FirstGrid m n) (hm : m ≠ 0)
    (hx : RoundsTo x m) (hk : HasDigits x k) : n ≤ k ∧ 1 ≤ k := by
  obtain ⟨hk1, ⟨_, hr⟩ | ⟨_, hr⟩ | ⟨_, c, rfl⟩⟩ := hx.place hm hk
  · exact ⟨(h.coarsest 0 1 ((sub_zero (leadingExponent m)).symm ▸ hr)).trans (Nat.zero_le k), hk1⟩
  · exact ⟨(h.coarsest 1 1 hr).trans hk1, hk1⟩
  · exact ⟨h.coarsest k c hx, hk1⟩

theorem FirstGrid.nearest {n k : Nat} {x : ℚ} (h : FirstGrid m n) (hm : m ≠ 0)
    (hx : RoundsTo x m) (hk : HasDigits x k) (hkn : k = max n 1) :
    |exact m - (shortest m).value| ≤ |exact m - x| := by
  obtain ⟨hl, hu⟩ := leadingExponent_spec hm
  have hp := ten_zpow_pos (leadingExponent m - 1)
  -- where the hit is in the leading place, all else that reads back is above `9` one place down
  have hnine : n = 0 → (9 : ℚ) * 10 ^ (leadingExponent m - 1) < x := by
    rintro rfl
    have hg := h.found
    rw [Nat.cast_zero, sub_zero] at hg
    exact_mod_cast hg.nine_lt hm hx
  obtain ⟨_, ⟨hle, hr⟩ | ⟨hlt, hr⟩ | ⟨hlt, c, rfl⟩⟩ := hx.place hm hk
  · obtain rfl : n = 0 := Nat.le_zero.mp (h.coarsest 0 1 ((sub_zero (leadingExponent m)).symm ▸ hr))
    have hg := h.found
    rw [Nat.cast_zero, sub_zero] at hg
    refine (hg.nearest 1 hr).trans ?_
    rw [Decimal.value_one, abs_of_neg (by linarith), abs_of_neg (by linarith)]
    linarith
  · have hn : n ≤ 1 := h.coarsest 1 1 hr
    have hn0 : n ≠ 0 := fun hn => by linarith [hnine hn]
    obtain rfl : n = 1 := by omega
    refine (h.found.nearest 1 hr).trans ?_
    rw [Nat.cast_one, Decimal.value_one, abs_of_nonneg (by linarith), abs_of_nonneg (by linarith)]
    linarith
  · by_cases hn : n = 0
    · obtain rfl : k = 1 := by omega
      have h9 := hnine hn
      rw [Decimal.value_mk, Nat.cast_one] at h9 hlt
      rw [ten_zpow_leadingExponent] at hlt
      have hc9 : 9 < c := by exact_mod_cast lt_of_mul_lt_mul_right h9 hp.le
      have hc10 : c < 10 := by exact_mod_cast lt_of_mul_lt_mul_right hlt hp.le
      omega
    · obtain rfl : k = n := by omega
      exact h.found.nearest c hx

/-- No decimal that reads back has fewer digits than the shortest one, and none with as few is
nearer to the exact value. -/
theorem shortest_least {x : ℚ} {k : Nat} (hm : m ≠ 0) (hf : m < infinity) (hx : RoundsTo x m)
    (hk : HasDigits x k) :
    HasDigits (shortest m).value k ∧
      ((∀ j, HasDigits (shortest m).value j → k ≤ j) →
        |exact m - (shortest m).value| ≤ |exact m - x|) := by
  obtain ⟨n, h⟩ := exists_firstGrid hm hf
  obtain ⟨hn, h1⟩ := h.le_digits hm hx hk
  have hd := h.found.hasDigits hm
  refine ⟨hd.mono (by omega), fun hleast => h.nearest hm hx hk ?_⟩
  have hle := hleast _ hd
  omega

end

end Weight

end WeightTables
