import WeightTables.Weight.Basic

/-! Weights as raw bytes, four to a weight, the least significant byte first. The bytes carry the
bit pattern itself, so patterns that are no numbers keep all of their bits. -/

namespace WeightTables

abbrev Bytes := List UInt8

namespace Weight

def toBytes (w : Weight) : Bytes :=
  let n := w.bits.toNat
  [UInt8.ofNat n, UInt8.ofNat (n / 0x100), UInt8.ofNat (n / 0x10000), UInt8.ofNat (n / 0x1000000)]

def ofBytes (a b c d : UInt8) : Weight :=
  ⟨UInt32.ofNat (a.toNat + 0x100 * b.toNat + 0x10000 * c.toNat + 0x1000000 * d.toNat)⟩

theorem ofBytes_toBytes (w : Weight) :
    ofBytes (UInt8.ofNat w.bits.toNat) (UInt8.ofNat (w.bits.toNat / 0x100))
      (UInt8.ofNat (w.bits.toNat / 0x10000)) (UInt8.ofNat (w.bits.toNat / 0x1000000)) = w := by
  have hw := w.bits.toNat_lt
  refine ext_bits ?_
  simp only [ofBytes, UInt32.toNat_ofNat', UInt8.toNat_ofNat']
  omega

theorem toBytes_ofBytes (a b c d : UInt8) : (ofBytes a b c d).toBytes = [a, b, c, d] := by
  have ha := a.toNat_lt
  have hb := b.toNat_lt
  have hc := c.toNat_lt
  have hd := d.toNat_lt
  simp only [toBytes, ofBytes, UInt32.toNat_ofNat', List.cons.injEq, and_true, ← UInt8.toNat_inj,
    UInt8.toNat_ofNat']
  omega

end Weight

def bytesOfWeights (values : List Weight) : Bytes := values.flatMap Weight.toBytes

/-- The weights in a row of bytes. Up to three bytes at the end make no weight. -/
def weightsOfBytes : Bytes → List Weight
  | a :: b :: c :: d :: rest => Weight.ofBytes a b c d :: weightsOfBytes rest
  | _ => []

end WeightTables
