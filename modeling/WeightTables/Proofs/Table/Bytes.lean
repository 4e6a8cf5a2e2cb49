import WeightTables.Loading
import WeightTables.Table
import Mathlib.Tactic.IntervalCases

/-! The bytes of a table and the tables in rows of bytes. Writing and reading undo each other, and
what is cut out of a table at two positions is cut out of its bytes at four times these
positions. -/

namespace WeightTables

theorem Weight.length_toBytes (w : Weight) : w.toBytes.length = 4 := rfl

theorem bytesOfWeights_cons (w : Weight) (ws : List Weight) :
    bytesOfWeights (w :: ws) = w.toBytes ++ bytesOfWeights ws := rfl

theorem length_bytesOfWeights (ws : List Weight) : (bytesOfWeights ws).length = 4 * ws.length := by
  induction ws with
  | nil => rfl
  | cons w ws ih =>
    rw [bytesOfWeights_cons, List.length_append, ih, w.length_toBytes, List.length_cons]
    omega

theorem bytesOfWeights_drop (ws : List Weight) (n : Nat) :
    bytesOfWeights (ws.drop n) = (bytesOfWeights ws).drop (4 * n) := by
  induction n generalizing ws with
  | zero => rfl
  | succ n ih =>
    cases ws with
    | nil => rfl
    | cons w ws =>
      have hn : 4 * (n + 1) = w.toBytes.length + 4 * n := by rw [w.length_toBytes]; omega
      rw [List.drop_succ_cons, ih, bytesOfWeights_cons, hn, List.drop_length_add_append]

theorem bytesOfWeights_take (ws : List Weight) (n : Nat) :
    bytesOfWeights (ws.take n) = (bytesOfWeights ws).take (4 * n) := by
  induction n generalizing ws with
  | zero => rfl
  | succ n ih =>
    cases ws with
    | nil => rfl
    | cons w ws =>
      have hn : 4 * (n + 1) = w.toBytes.length + 4 * n := by rw [w.length_toBytes]; omega
      rw [List.take_succ_cons, bytesOfWeights_cons, bytesOfWeights_cons, ih, hn,
        List.take_length_add_append]

theorem bytesOfWeights_extract (ws : List Weight) (start stop : Nat) :
    bytesOfWeights (ws.extract start stop) =
      (bytesOfWeights ws).extract (4 * start) (4 * stop) := by
  rw [List.extract_eq_take_drop, List.extract_eq_take_drop, bytesOfWeights_take,
    bytesOfWeights_drop, Nat.mul_sub]

theorem getElem?_bytesOfWeights {ws : List Weight} {i : Nat} {w : Weight} (h : ws[i]? = some w)
    {k : Nat} (hk : k < 4) :
    (bytesOfWeights ws)[4 * i + k]? = some (UInt8.ofNat (w.bits.toNat / 256 ^ k)) := by
  have hd : (ws.drop i).head? = some w := by rw [List.head?_drop, h]
  obtain ⟨rest, hr⟩ := List.head?_eq_some_iff.mp hd
  rw [← List.getElem?_drop, ← bytesOfWeights_drop, hr]
  interval_cases k
  · simp [bytesOfWeights, Weight.toBytes]
  · rfl
  · rfl
  · rfl

theorem weightsOfBytes_bytesOfWeights (ws : List Weight) :
    weightsOfBytes (bytesOfWeights ws) = ws := by
  induction ws with
  | nil => rfl
  | cons w ws ih =>
    have hc : weightsOfBytes (bytesOfWeights (w :: ws)) =
        _ :: weightsOfBytes (bytesOfWeights ws) := rfl
    rw [hc, ih, Weight.ofBytes_toBytes]

theorem exists_bytesOfWeights {bytes : Bytes} {n : Nat} (h : bytes.length = 4 * n) :
    ∃ ws : List Weight, ws.length = n ∧ bytesOfWeights ws = bytes := by
  induction n generalizing bytes with
  | zero => exact ⟨[], rfl, (List.eq_nil_of_length_eq_zero h).symm⟩
  | succ n ih =>
    match bytes, h with
    | a :: b :: c :: d :: rest, h =>
      have hr : rest.length = 4 * n := by
        simp only [List.length_cons] at h
        omega
      obtain ⟨ws, hl, hb⟩ := ih hr
      refine ⟨Weight.ofBytes a b c d :: ws, by rw [List.length_cons, hl], ?_⟩
      rw [bytesOfWeights_cons, Weight.toBytes_ofBytes, hb]
      rfl

section

variable {count : Nat} {bytes : Bytes} {ws : List Weight}

theorem loadBytes_eq_ok :
    loadBytes count bytes = .ok ws ↔ ws.length = count ∧ bytesOfWeights ws = bytes := by
  constructor
  · intro h
    unfold loadBytes at h
    split at h
    · rename_i hl
      obtain ⟨vs, hv, rfl⟩ := exists_bytesOfWeights hl
      rw [weightsOfBytes_bytesOfWeights] at h
      exact Except.ok.inj h ▸ ⟨hv, rfl⟩
    · exact absurd h (by simp)
  · rintro ⟨rfl, rfl⟩
    rw [loadBytes, if_pos (length_bytesOfWeights ws), weightsOfBytes_bytesOfWeights]

theorem loadBytes_of_length_ne (h : bytes.length ≠ 4 * count) :
    loadBytes count bytes = .error (.wrongByteCount (4 * count) bytes.length) :=
  if_neg h

theorem exists_loadBytes_iff :
    (∃ ws, loadBytes count bytes = .ok ws) ↔ bytes.length = 4 * count := by
  constructor
  · rintro ⟨ws, h⟩
    obtain ⟨rfl, rfl⟩ := loadBytes_eq_ok.mp h
    exact length_bytesOfWeights ws
  · intro h
    obtain ⟨ws, hl, hb⟩ := exists_bytesOfWeights h
    exact ⟨ws, loadBytes_eq_ok.mpr ⟨hl, hb⟩⟩

end

theorem Table.slice_eq_extract {t : Table} {start stop : Nat} (h : start ≤ stop)
    (hs : stop ≤ t.length) : t.slice start stop = .ok (t.values.extract start stop) := by
  have ht : ¬ t.length < start := by omega
  rw [slice, if_neg ht, if_neg (Nat.not_lt.mpr hs), if_neg (Nat.not_lt.mpr h),
    List.extract_eq_take_drop, List.drop_take]

/-- The part of a table between two positions, beside the part of its bytes. -/
structure SliceLoads (t : Table) (start stop : Nat) : Prop where
  slice : t.slice start stop = .ok (t.values.extract start stop)
  bytes : ∀ name, (Table.mk name (t.values.extract start stop)).bytes =
    t.bytes.extract (4 * start) (4 * stop)
  loads : loadBytes (stop - start) (t.bytes.extract (4 * start) (4 * stop)) =
    .ok (t.values.extract start stop)

/-- Bytes that load as a table exactly if there are four for each weight, and are then its bytes. -/
structure LoadsExactly (count : Nat) (bytes : Bytes) : Prop where
  loads : (∃ ws, loadBytes count bytes = .ok ws) ↔ bytes.length = 4 * count
  back : ∀ ws name, loadBytes count bytes = .ok ws →
    ws.length = count ∧ (Table.mk name ws).bytes = bytes
  refused : bytes.length ≠ 4 * count →
    loadBytes count bytes = .error (.wrongByteCount (4 * count) bytes.length)

theorem sliceLoads {t : Table} {start stop : Nat} (h : start ≤ stop) (hs : stop ≤ t.length) :
    SliceLoads t start stop where
  slice := Table.slice_eq_extract h hs
  bytes _ := bytesOfWeights_extract t.values start stop
  loads := by
    refine loadBytes_eq_ok.mpr ⟨?_, bytesOfWeights_extract t.values start stop⟩
    unfold Table.length at hs
    rw [List.extract_eq_take_drop, List.length_take, List.length_drop]
    omega

theorem loadsExactly (count : Nat) (bytes : Bytes) : LoadsExactly count bytes where
  loads := exists_loadBytes_iff
  back _ _ := loadBytes_eq_ok.mp
  refused := loadBytes_of_length_ne

/-- The bytes of a table hold its weights one after the other, the least significant byte first.
Every part of a table loads from its part of the bytes, and every part of a row of bytes loads back
and forth if it has four bytes for each weight. -/
theorem bytes_loadBytes_roundTrip :
    (∀ (t : Table) (i : Nat) (w : Weight) (k : Nat), t.values[i]? = some w → k < 4 →
      t.bytes[4 * i + k]? = some (UInt8.ofNat (w.bits.toNat / 256 ^ k))) ∧
    (∀ (t : Table) (start stop : Nat), start ≤ stop → stop ≤ t.length → SliceLoads t start stop) ∧
    ∀ (count : Nat) (buffer : Bytes) (start stop : Nat),
      LoadsExactly count (buffer.extract start stop) := by
  refine ⟨?_, ?_, ?_⟩
  · intro t i w k hi hk
    exact getElem?_bytesOfWeights hi hk
  · intro t start stop h hs
    exact sliceLoads h hs
  · intro count buffer start stop
    exact loadsExactly count (buffer.extract start stop)

/-- The last two of three weights, one with a payload and a negative zero, and the same bytes one
position further on in a buffer. -/
theorem bytes_loadBytes_roundTrip_small :
    loadBytes 2 ((Table.mk "t" [⟨0x3f800000⟩, ⟨0xffc00001⟩, ⟨0x80000000⟩]).bytes.extract 4 12) =
      .ok [⟨0xffc00001⟩, ⟨0x80000000⟩] ∧
    bytesOfWeights [⟨0xffc00001⟩, ⟨0x80000000⟩] =
      List.extract [7, 0x01, 0x00, 0xc0, 0xff, 0x00, 0x00, 0x00, 0x80] 1 9 := by
  obtain ⟨_, hslice, hload⟩ := bytes_loadBytes_roundTrip
  constructor
  · exact (hslice ⟨"t", [⟨0x3f800000⟩, ⟨0xffc00001⟩, ⟨0x80000000⟩]⟩ 1 3 (by decide)
      (by decide)).loads
  · exact ((hload 2 [7, 0x01, 0x00, 0xc0, 0xff, 0x00, 0x00, 0x00, 0x80] 1 9).back
      [⟨0xffc00001⟩, ⟨0x80000000⟩] "t" (by decide)).2

end WeightTables
