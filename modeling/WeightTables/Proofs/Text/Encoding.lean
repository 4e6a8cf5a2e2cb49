import WeightTables.Proofs.FileSystem
import WeightTables.Proofs.Stream
import Mathlib.Algebra.Ring.Nat

/-! Which bytes encode a text. A first byte tells how many bytes follow it, and each of those adds
six bits to the code point. A character is encoded by the shortest sequence that carries its code
point, so bytes that encode no text go wrong at some place, in one of a few ways. -/

namespace WeightTables

namespace Utf8

def IsTail (b : UInt8) : Prop := 0x80 ≤ b.toNat ∧ b.toNat < 0xc0

instance : DecidablePred IsTail := fun _ => inferInstanceAs (Decidable (_ ∧ _))

/-- How many bytes follow a first byte, and the bits that it carries itself. -/
def lead? (a : UInt8) : Option (Nat × Nat) :=
  if a.toNat < 0x80 then some (0, a.toNat)
  else if a.toNat < 0xc0 then none
  else if a.toNat < 0xe0 then some (1, a.toNat - 0xc0)
  else if a.toNat < 0xf0 then some (2, a.toNat - 0xe0)
  else if a.toNat < 0xf8 then some (3, a.toNat - 0xf0)
  else none

def code (bits : Nat) (tails : Bytes) : Nat :=
  tails.foldl (fun n b => 0x40 * n + (b.toNat - 0x80)) bits

/-- The least code point that does not fit into a sequence with fewer bytes behind the first. -/
def least : Nat → Nat
  | 0 => 0
  | 1 => 0x80
  | 2 => 0x800
  | _ => 0x10000

/-- A first byte with as many bytes behind it as it tells, and the code that they carry. -/
inductive Sequence : Bytes → Nat → Nat → Prop
  | mk {a : UInt8} {tails : Bytes} {bits : Nat} (ha : lead? a = some (tails.length, bits))
    (ht : ∀ b ∈ tails, IsTail b) : Sequence (a :: tails) tails.length (code bits tails)

/-- The shortest sequence that carries the code point of a character. -/
def EncodesChar (seq : Bytes) (c : Char) : Prop := ∃ k, Sequence seq k c.toNat ∧ least k ≤ c.toNat

inductive EncodesChars : Bytes → List Char → Prop
  | nil : EncodesChars [] []
  | cons {seq bytes : Bytes} {c : Char} {cs : List Char} (h : EncodesChar seq c)
    (h' : EncodesChars bytes cs) : EncodesChars (seq ++ bytes) (c :: cs)

def EncodesText (bytes : Bytes) (text : String) : Prop := EncodesChars bytes text.toList

/-- Bytes that go wrong at their first one, whatever comes after the sequence that it starts. -/
inductive Malformed : Bytes → Prop
  | strayTail {a : UInt8} (h : IsTail a) (rest : Bytes) : Malformed (a :: rest)
  | noLead {a : UInt8} (h : 0xf8 ≤ a.toNat) (rest : Bytes) : Malformed (a :: rest)
  | cutOff {a : UInt8} {k bits : Nat} {tails rest : Bytes} (ha : lead? a = some (k, bits))
    (ht : ∀ b ∈ tails, IsTail b) (hk : tails.length < k) (hr : ∀ b ∈ rest.head?, ¬ IsTail b) :
    Malformed (a :: (tails ++ rest))
  | overlong {seq : Bytes} {k n : Nat} (h : Sequence seq k n) (hn : n < least k) (rest : Bytes) :
    Malformed (seq ++ rest)
  | surrogate {seq : Bytes} {k n : Nat} (h : Sequence seq k n) (hn : 0xd800 ≤ n ∧ n ≤ 0xdfff)
    (rest : Bytes) : Malformed (seq ++ rest)
  | tooLarge {seq : Bytes} {k n : Nat} (h : Sequence seq k n) (hn : 0x10ffff < n)
    (rest : Bytes) : Malformed (seq ++ rest)

section

variable {a a' : UInt8} {seq seq' rest rest' tails tails' bytes : Bytes}
  {k k' n n' bits bits' : Nat} {c c' : Char} {cs cs' : List Char}

theorem lead?_eq_some_iff : lead? a = some (k, bits) ↔
    (k = 0 ∧ a.toNat = bits ∧ bits < 0x80) ∨ (k = 1 ∧ a.toNat = 0xc0 + bits ∧ bits < 0x20) ∨
      (k = 2 ∧ a.toNat = 0xe0 + bits ∧ bits < 0x10) ∨
      (k = 3 ∧ a.toNat = 0xf0 + bits ∧ bits < 8) := by
  unfold lead?
  split_ifs <;> simp only [Option.some.injEq, Prod.mk.injEq, false_iff] <;> omega

theorem lead?_eq_none_iff : lead? a = none ↔ IsTail a ∨ 0xf8 ≤ a.toNat := by
  unfold lead? IsTail
  split_ifs <;> simp only [true_iff, false_iff] <;> omega

theorem lead?_inj (h : lead? a = some (k, bits)) (h' : lead? a' = some (k, bits)) : a = a' := by
  rw [lead?_eq_some_iff] at h h'
  refine UInt8.toNat_inj.mp ?_
  rcases h with ⟨rfl, h⟩ | ⟨rfl, h⟩ | ⟨rfl, h⟩ | ⟨rfl, h⟩ <;> omega

theorem code_nil (bits : Nat) : code bits [] = bits := rfl

theorem code_cons (bits : Nat) (b : UInt8) (tails : Bytes) :
    code bits (b :: tails) = code (0x40 * bits + (b.toNat - 0x80)) tails := by
  rw [code, code, List.foldl_cons]

theorem code_lt (h : ∀ b ∈ tails, IsTail b) (bits : Nat) :
    code bits tails < (bits + 1) * 0x40 ^ tails.length := by
  induction tails generalizing bits with
  | nil => simp [code_nil]
  | cons b tails ih =>
    obtain ⟨⟨_, hb⟩, ht⟩ := List.forall_mem_cons.mp h
    have hn : 0x40 * bits + (b.toNat - 0x80) + 1 ≤ (bits + 1) * 0x40 := by omega
    rw [code_cons, List.length_cons, pow_succ', ← mul_assoc]
    exact Nat.lt_of_lt_of_le (ih ht _) (Nat.mul_le_mul_right _ hn)

theorem code_inj (h : ∀ b ∈ tails, IsTail b) (h' : ∀ b ∈ tails', IsTail b)
    (hl : tails.length = tails'.length) (hc : code bits tails = code bits' tails') :
    bits = bits' ∧ tails = tails' := by
  induction tails generalizing tails' bits bits' with
  | nil =>
    obtain rfl := List.length_eq_zero_iff.mp hl.symm
    exact ⟨hc, rfl⟩
  | cons b tails ih =>
    cases tails' with
    | nil => simp at hl
    | cons b' tails' =>
      obtain ⟨⟨hb, _⟩, ht⟩ := List.forall_mem_cons.mp h
      obtain ⟨⟨hb', _⟩, ht'⟩ := List.forall_mem_cons.mp h'
      rw [code_cons, code_cons] at hc
      obtain ⟨hn, rfl⟩ := ih ht ht' (Nat.succ.inj hl) hc
      have he : b = b' := UInt8.toNat_inj.mp (by omega)
      exact ⟨by omega, by rw [he]⟩

theorem Sequence.exists_cons (h : Sequence seq k n) :
    ∃ a tails bits, seq = a :: tails ∧ lead? a = some (k, bits) ∧ tails.length = k ∧
      ∀ b ∈ tails, IsTail b := by
  cases h with
  | mk ha ht => exact ⟨_, _, _, rfl, ha, rfl, ht⟩

theorem Sequence.ne_nil (h : Sequence seq k n) : seq ≠ [] := by
  obtain ⟨a, tails, _, rfl, _⟩ := h.exists_cons
  exact List.cons_ne_nil a tails

/-- A sequence ends by itself, so it is the only one that the bytes start with. -/
theorem Sequence.unique (h : Sequence seq k n) (h' : Sequence seq' k' n')
    (he : seq ++ rest = seq' ++ rest') : seq = seq' ∧ rest = rest' ∧ k = k' ∧ n = n' := by
  cases h with
  | mk ha ht =>
    cases h' with
    | mk ha' ht' =>
      rw [List.cons_append, List.cons_append, List.cons.injEq] at he
      obtain ⟨rfl, he⟩ := he
      have hs := Option.some.inj (ha.symm.trans ha')
      obtain ⟨hl, rfl⟩ := Prod.mk.inj hs
      obtain ⟨rfl, rfl⟩ := List.append_inj he hl
      exact ⟨rfl, rfl, rfl, rfl⟩

theorem Sequence.eq_of_code (h : Sequence seq k n) (h' : Sequence seq' k n) : seq = seq' := by
  generalize hk : k = j at h'
  generalize hn : n = m at h'
  cases h with
  | mk ha ht =>
    cases h' with
    | mk ha' ht' =>
      obtain ⟨rfl, rfl⟩ := code_inj ht ht' hk hn
      rw [lead?_inj ha ha']

theorem Sequence.length_le (h : Sequence seq k n) : k ≤ 3 := by
  cases h with
  | mk ha ht =>
    rw [lead?_eq_some_iff] at ha
    omega

theorem Sequence.lt_least (h : Sequence seq k n) {j : Nat} (hj : k < j) (hj3 : j ≤ 3) :
    n < least j := by
  cases h with
  | @mk a tails bits ha ht =>
    have hlt := code_lt ht bits
    rw [lead?_eq_some_iff] at ha
    have hk : tails.length = 0 ∨ tails.length = 1 ∨ tails.length = 2 := by omega
    obtain rfl | rfl | rfl : j = 1 ∨ j = 2 ∨ j = 3 := by omega
    all_goals
      simp only [least]
      rcases hk with hk | hk | hk <;> rw [hk] at hlt <;> omega

theorem EncodesChar.ne_nil (h : EncodesChar seq c) : seq ≠ [] := by
  obtain ⟨k, hs, _⟩ := h
  exact hs.ne_nil

theorem EncodesChar.eq (h : EncodesChar seq c) (h' : EncodesChar seq' c) : seq = seq' := by
  obtain ⟨k, hs, hk⟩ := h
  obtain ⟨k', hs', hk'⟩ := h'
  -- what needs the longer sequence does not fit into the shorter one
  rcases Nat.lt_trichotomy k k' with hlt | rfl | hlt
  · exact absurd hk' (Nat.not_le.mpr (hs.lt_least hlt hs'.length_le))
  · exact hs.eq_of_code hs'
  · exact absurd hk (Nat.not_le.mpr (hs'.lt_least hlt hs.length_le))

theorem toNat_valid (c : Char) :
    c.toNat < 0xd800 ∨ (0xdfff < c.toNat ∧ c.toNat < 0x110000) :=
  c.valid

def tail (n : Nat) : UInt8 := UInt8.ofNat (n % 0x40 + 0x80)

theorem isTail_tail (n : Nat) : IsTail (tail n) := by
  rw [IsTail, tail, UInt8.toNat_ofNat']
  omega

theorem code_map_tail (ns : List Nat) (bits : Nat) :
    code bits (ns.map tail) = ns.foldl (fun m n => 0x40 * m + n % 0x40) bits := by
  induction ns generalizing bits with
  | nil => rfl
  | cons n ns ih =>
    have hn : (tail n).toNat = n % 0x40 + 0x80 := by
      rw [tail, UInt8.toNat_ofNat']
      omega
    rw [List.map_cons, code_cons, ih, hn, Nat.add_sub_cancel, List.foldl_cons]

theorem Sequence.of_tails {ns : List Nat} (ha : lead? a = some (ns.length, bits))
    (hn : ns.foldl (fun m n => 0x40 * m + n % 0x40) bits = n) :
    Sequence (a :: ns.map tail) ns.length n := by
  rw [← List.length_map (f := tail)] at ha ⊢
  rw [← hn, ← code_map_tail]
  refine .mk ha fun b hb => ?_
  obtain ⟨m, _, rfl⟩ := List.mem_map.mp hb
  exact isTail_tail m

theorem lead?_ofNat (h : (k = 0 ∧ n = bits ∧ bits < 0x80) ∨
    (k = 1 ∧ n = 0xc0 + bits ∧ bits < 0x20) ∨ (k = 2 ∧ n = 0xe0 + bits ∧ bits < 0x10) ∨
      (k = 3 ∧ n = 0xf0 + bits ∧ bits < 8)) : lead? (UInt8.ofNat n) = some (k, bits) := by
  have hn : n < 2 ^ 8 := by omega
  rwa [lead?_eq_some_iff, UInt8.toNat_ofNat', Nat.mod_eq_of_lt hn]

theorem encodesChar_utf8EncodeChar (c : Char) : EncodesChar (String.utf8EncodeChar c) c := by
  have hc := toNat_valid c
  simp only [String.utf8EncodeChar, EncodesChar, ← Char.toNat_val] at hc ⊢
  generalize c.val.toNat = v at hc
  split_ifs with h1 h2 h3
  · have hl := @lead?_ofNat 0 v v (by omega)
    exact ⟨0, @Sequence.of_tails _ _ _ [] hl rfl, Nat.zero_le v⟩
  · have hl := @lead?_ofNat 1 (v / 64 % 0x20 + 0xc0) (v / 64 % 0x20) (by omega)
    refine ⟨1, @Sequence.of_tails _ _ _ [v] hl ?_, by simp only [least]; omega⟩
    simp only [List.foldl_cons, List.foldl_nil]
    omega
  · have hl := @lead?_ofNat 2 (v / 4096 % 0x10 + 0xe0) (v / 4096 % 0x10) (by omega)
    refine ⟨2, @Sequence.of_tails _ _ _ [v / 64, v] hl ?_, by simp only [least]; omega⟩
    simp only [List.foldl_cons, List.foldl_nil]
    omega
  · have hl := @lead?_ofNat 3 (v / 262144 % 0x08 + 0xf0) (v / 262144 % 0x08) (by omega)
    refine ⟨3, @Sequence.of_tails _ _ _ [v / 4096, v / 64, v] hl ?_, by simp only [least]; omega⟩
    simp only [List.foldl_cons, List.foldl_nil]
    omega

theorem encodesChar_iff : EncodesChar seq c ↔ seq = String.utf8EncodeChar c :=
  ⟨fun h => h.eq (encodesChar_utf8EncodeChar c), fun h => h ▸ encodesChar_utf8EncodeChar c⟩

theorem EncodesChar.unique (h : EncodesChar seq c) (h' : EncodesChar seq' c')
    (he : seq ++ rest = seq' ++ rest') : c = c' ∧ rest = rest' := by
  obtain ⟨k, hs, _⟩ := h
  obtain ⟨k', hs', _⟩ := h'
  obtain ⟨_, hr, _, hn⟩ := hs.unique hs' he
  exact ⟨Char.toNat_inj.mp hn, hr⟩

theorem encodesChars_iff : EncodesChars bytes cs ↔ bytes = cs.flatMap String.utf8EncodeChar := by
  constructor
  · intro h
    induction h with
    | nil => rfl
    | cons h _ ih => rw [List.flatMap_cons, ← ih, encodesChar_iff.mp h]
  · rintro rfl
    induction cs with
    | nil => exact .nil
    | cons c cs ih => exact .cons (encodesChar_utf8EncodeChar c) ih

theorem bytesOfText_eq_flatMap (s : String) :
    bytesOfText s = s.toList.flatMap String.utf8EncodeChar := by
  rw [bytesOfText, String.toUTF8_eq_toByteArray, ← String.utf8Encode_toList, List.utf8Encode,
    List.toList_data_toByteArray]

theorem encodesText_iff {text : String} : EncodesText bytes text ↔ bytes = bytesOfText text := by
  rw [EncodesText, encodesChars_iff, bytesOfText_eq_flatMap]

theorem not_sequence_of_lead? (h : lead? a = none) (hs : Sequence seq k n) :
    a :: rest ≠ seq ++ rest' := by
  obtain ⟨a', tails, bits, rfl, ha, _⟩ := hs.exists_cons
  rw [List.cons_append]
  intro he
  rw [(List.cons.inj he).1, ha] at h
  exact absurd h (by simp)

theorem not_sequence_of_cutOff (ha : lead? a = some (k', bits)) (ht : ∀ b ∈ tails, IsTail b)
    (hk : tails.length < k') (hr : ∀ b ∈ rest.head?, ¬ IsTail b) (hs : Sequence seq k n) :
    a :: (tails ++ rest) ≠ seq ++ rest' := by
  obtain ⟨a', tails', bits', rfl, ha', hl, ht'⟩ := hs.exists_cons
  intro he
  obtain ⟨rfl, hrest⟩ := List.cons.inj he
  obtain ⟨rfl, _⟩ := Prod.mk.inj (Option.some.inj (ha.symm.trans ha'))
  rcases List.append_eq_append_iff.mp hrest with ⟨more, rfl, hm⟩ | ⟨more, rfl, hm⟩
  · cases more with
    | nil =>
      rw [List.append_nil] at hl
      omega
    | cons b more => exact hr b (by simp [hm]) (ht' b (by simp))
  · rw [List.length_append] at hk
    omega

/-- Where bytes go wrong at once, they do not start with a character. -/
theorem Malformed.ne_append (h : Malformed bytes) (hc : EncodesChar seq c) :
    bytes ≠ seq ++ rest := by
  have hv := toNat_valid c
  obtain ⟨k, hs, hk⟩ := hc
  cases h with
  | strayTail h _ => exact not_sequence_of_lead? (lead?_eq_none_iff.mpr (.inl h)) hs
  | noLead h _ => exact not_sequence_of_lead? (lead?_eq_none_iff.mpr (.inr h)) hs
  | cutOff ha ht hk hr => exact not_sequence_of_cutOff ha ht hk hr hs
  | overlong h hn _ =>
    intro he
    obtain ⟨_, _, rfl, rfl⟩ := h.unique hs he
    omega
  | surrogate h hn _ =>
    intro he
    obtain ⟨_, _, _, rfl⟩ := h.unique hs he
    omega
  | tooLarge h hn _ =>
    intro he
    obtain ⟨_, _, _, rfl⟩ := h.unique hs he
    omega

theorem Sequence.encodes_or_malformed (h : Sequence seq k n) (rest : Bytes) :
    (∃ c, EncodesChar seq c) ∨ Malformed (seq ++ rest) := by
  by_cases hk : n < least k
  · exact .inr (.overlong h hk rest)
  by_cases hs : 0xd800 ≤ n ∧ n ≤ 0xdfff
  · exact .inr (.surrogate h hs rest)
  by_cases hl : 0x10ffff < n
  · exact .inr (.tooLarge h hl rest)
  have hv : n.isValidChar := by
    unfold Nat.isValidChar
    omega
  exact .inl ⟨Char.ofNatAux n hv, k, h, Nat.not_lt.mp hk⟩

theorem tails_or_cutOff (k : Nat) (bytes : Bytes) :
    ∃ tails rest, bytes = tails ++ rest ∧ (∀ b ∈ tails, IsTail b) ∧
      (tails.length = k ∨ tails.length < k ∧ ∀ b ∈ rest.head?, ¬ IsTail b) := by
  induction k generalizing bytes with
  | zero => exact ⟨[], bytes, rfl, by simp, .inl rfl⟩
  | succ k ih =>
    cases bytes with
    | nil => exact ⟨[], [], rfl, by simp, .inr (by simp)⟩
    | cons b bytes =>
      by_cases hb : IsTail b
      · obtain ⟨tails, rest, rfl, ht, h⟩ := ih bytes
        refine ⟨b :: tails, rest, rfl, List.forall_mem_cons.mpr ⟨hb, ht⟩, ?_⟩
        simpa using h
      · exact ⟨[], b :: bytes, rfl, by simp, .inr (by simp [hb])⟩

/-- What bytes start with, if there are any. -/
theorem encodes_or_malformed (a : UInt8) (bytes : Bytes) :
    (∃ seq rest c, EncodesChar seq c ∧ a :: bytes = seq ++ rest) ∨ Malformed (a :: bytes) := by
  cases ha : lead? a with
  | none =>
    rcases lead?_eq_none_iff.mp ha with h | h
    · exact .inr (.strayTail h bytes)
    · exact .inr (.noLead h bytes)
  | some p =>
    obtain ⟨k, bits⟩ := p
    obtain ⟨tails, rest, rfl, ht, rfl | ⟨hk, hr⟩⟩ := tails_or_cutOff k bytes
    · rcases (Sequence.mk ha ht).encodes_or_malformed rest with ⟨c, hc⟩ | hm
      · exact .inl ⟨_, rest, c, hc, rfl⟩
      · exact .inr hm
    · exact .inr (.cutOff ha ht hk hr)

theorem encodesChars_or_malformed (bytes : Bytes) : (∃ cs, EncodesChars bytes cs) ∨
    ∃ front cs rest, bytes = front ++ rest ∧ EncodesChars front cs ∧ Malformed rest := by
  induction hl : bytes.length using Nat.strongRecOn generalizing bytes with
  | _ len ih =>
    cases bytes with
    | nil => exact .inl ⟨[], .nil⟩
    | cons a bytes =>
      rcases encodes_or_malformed a bytes with ⟨seq, rest, c, hc, he⟩ | hm
      · have hlt : rest.length < len := by
          have hpos := List.length_pos_iff.mpr hc.ne_nil
          rw [← hl, he, List.length_append]
          omega
        rw [he]
        rcases ih rest.length hlt rest rfl with ⟨cs, h⟩ | ⟨front, cs, rest, rfl, h, hm⟩
        · exact .inl ⟨c :: cs, .cons hc h⟩
        · exact .inr ⟨seq ++ front, c :: cs, rest, (List.append_assoc ..).symm, .cons hc h, hm⟩
      · exact .inr ⟨[], [], _, rfl, .nil, hm⟩

theorem Malformed.ne_nil (h : Malformed bytes) : bytes ≠ [] := by
  cases h with
  | strayTail | noLead | cutOff => exact List.cons_ne_nil _ _
  | overlong h | surrogate h | tooLarge h => simp [h.ne_nil]

theorem Malformed.not_encodesChars (hm : Malformed rest) {front : Bytes}
    (h : EncodesChars front cs) : ¬ EncodesChars (front ++ rest) cs' := by
  induction h generalizing cs' with
  | nil =>
    intro h
    generalize hb : [] ++ rest = bytes at h
    cases h with
    | nil => exact hm.ne_nil hb
    | cons hc _ => exact hm.ne_append hc hb
  | @cons seq bytes c cs hc _ ih =>
    intro h
    generalize hb : seq ++ bytes ++ rest = all at h
    cases h with
    | nil => simp [hc.ne_nil] at hb
    | cons hc' h' =>
      rw [List.append_assoc] at hb
      obtain ⟨rfl, rfl⟩ := hc.unique hc' hb
      exact ih h'

theorem not_encodesText_iff : (¬ ∃ text, EncodesText bytes text) ↔
    ∃ front text rest, bytes = front ++ rest ∧ EncodesText front text ∧ Malformed rest := by
  constructor
  · intro h
    rcases encodesChars_or_malformed bytes with ⟨cs, hc⟩ | ⟨front, cs, rest, he, hc, hm⟩
    · exact absurd ⟨String.ofList cs, by rwa [EncodesText, String.toList_ofList]⟩ h
    · exact ⟨front, String.ofList cs, rest, he, by rwa [EncodesText, String.toList_ofList], hm⟩
  · rintro ⟨front, text, rest, rfl, hc, hm⟩ ⟨text', hc'⟩
    exact hm.not_encodesChars hc hc'

theorem decodeText_of_encodesText {text : String} (h : EncodesText bytes text) :
    decodeText bytes = .ok text := by
  rw [encodesText_iff.mp h, decodeText_bytesOfText]

theorem decodeText_of_not_encodesText (h : ¬ ∃ text, EncodesText bytes text) :
    decodeText bytes = .error .invalidText := by
  cases ht : textOfBytes? bytes with
  | none => rw [decodeText, ht]
  | some text => exact absurd ⟨text, encodesText_iff.mpr (textOfBytes?_eq_some_iff.mp ht)⟩ h

end

end Utf8

open Utf8

/-- How a load takes bytes for a text. -/
structure TakesAsText (count : Nat) (bytes : Bytes) : Prop where
  decoded : ∀ text, EncodesText bytes text →
    loadStream count [.piece bytes] = ⟨[.read bytes.length], loadText count text⟩
  unique : ∀ text text', EncodesText bytes text → EncodesText bytes text' → text = text'
  refused : (¬ ∃ text, EncodesText bytes text) → ∃ e : IoError, e.kind = .invalidData ∧
    e.message = "stream did not contain valid UTF-8" ∧
      loadStream count [.piece bytes] = ⟨[], .error (.io e)⟩
  refused_iff : (¬ ∃ text, EncodesText bytes text) ↔
    ∃ front text rest, bytes = front ++ rest ∧ EncodesText front text ∧ Malformed rest

/-- Bytes are the text that they encode, if there is one. Bytes that go wrong anywhere are refused,
whatever is before that place. -/
theorem loadStream_takesAsText (count : Nat) (bytes : Bytes) : TakesAsText count bytes where
  decoded text h := by
    simp only [loadStream, Stream.content_singleton, loadContent, decodeText_of_encodesText h]
  unique text text' h h' := by
    have hd := (decodeText_of_encodesText h).symm.trans (decodeText_of_encodesText h')
    exact Except.ok.inj hd
  refused h := by
    refine ⟨.invalidText, rfl, rfl, ?_⟩
    simp only [loadStream, Stream.content_singleton, loadContent, decodeText_of_not_encodesText h]
  refused_iff := not_encodesText_iff

/-- A blank of two bytes between numbers, and a bad token before a surrogate. -/
theorem loadStream_takesAsText_small :
    loadStream 2 [.piece [0x31, 0xc2, 0xa0, 0x32]] = ⟨[.read 4], loadText 2 "1\u00a02"⟩ ∧
    ∃ e : IoError, e.kind = .invalidData ∧
      loadStream 0 [.piece [0x78, 0x2c, 0xed, 0xa0, 0x80, 0x31]] = ⟨[], .error (.io e)⟩ := by
  have hs : Sequence [0xed, 0xa0, 0x80] 2 0xd800 :=
    @Sequence.mk 0xed [0xa0, 0x80] 0xd (by decide) (by simp [IsTail])
  have hx : EncodesText [0x78, 0x2c] "x," := encodesText_iff.mpr (by decide +kernel)
  have hm : Malformed [0xed, 0xa0, 0x80, 0x31] := .surrogate hs (by decide) [0x31]
  have ht := loadStream_takesAsText 0 [0x78, 0x2c, 0xed, 0xa0, 0x80, 0x31]
  obtain ⟨e, hk, -, hr⟩ := ht.refused (ht.refused_iff.mpr ⟨_, _, _, rfl, hx, hm⟩)
  have hb : EncodesText [0x31, 0xc2, 0xa0, 0x32] "1\u00a02" :=
    encodesText_iff.mpr (by decide +kernel)
  exact ⟨(loadStream_takesAsText 2 _).decoded _ hb, e, hk, hr⟩

end WeightTables
