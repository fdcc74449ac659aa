import SchemaCodec.Number.Double

/-!
# Words and their bytes

Every fixed-width word of the format is a number below the capacity of its width, written most
significant byte first. Whatever the word stands for, writing and reading are inverse to each other:
on words, and on byte strings of the width.
-/

namespace SchemaCodec

/-- Writing gives so many bytes, and reading is its inverse in both directions. -/
structure FixedWidth (width : Nat) (encode : α → Bytes) (decode : Bytes → α) : Prop where
  length_encode : ∀ word, (encode word).length = width
  decode_encode : ∀ word, decode (encode word) = word
  encode_decode : ∀ bytes : Bytes, bytes.length = width → encode (decode bytes) = bytes

namespace FixedWidth

/-- A word that is a number below the capacity of its width is written and read as that number. -/
theorem ofNumbers {width : Nat} (number : α → Nat) (word : Nat → α)
    (word_number : ∀ held, word (number held) = held)
    (number_word : ∀ count, number (word count) = count % BigEndian.capacity width) :
    FixedWidth width (fun held => BigEndian.encode width (number held))
      (fun bytes => word (BigEndian.decode bytes)) where
  length_encode held := BigEndian.length_encode width (number held)
  decode_encode held := by
    have fits : number held < BigEndian.capacity width := by
      rw [← word_number held, number_word]
      exact Nat.mod_lt _ (BigEndian.capacity_pos width)
    simp only [BigEndian.decode_encode]
    rw [Nat.mod_eq_of_lt fits, word_number]
  encode_decode bytes length := by
    subst length
    have fits : BigEndian.decode bytes < BigEndian.capacity bytes.length :=
      BigEndian.decode_lt bytes
    simp only [number_word]
    rw [Nat.mod_eq_of_lt fits, BigEndian.encode_decode]

/-- A byte is written as itself. -/
theorem uint8 : FixedWidth 1 (fun code : UInt8 => [code])
    (fun bytes => UInt8.ofNat (BigEndian.decode bytes)) where
  length_encode _ := rfl
  decode_encode code := by simp [BigEndian.decode, BigEndian.decodeFrom]
  encode_decode bytes length := by
    obtain ⟨code, rfl⟩ := List.length_eq_one_iff.mp length
    simp [BigEndian.decode, BigEndian.decodeFrom]

/-- Signed bytes. -/
theorem int8 : FixedWidth 1 encodeInt8 decodeInt8 :=
  ofNumbers (fun number : Int8 => number.toUInt8.toNat) (fun count => (UInt8.ofNat count).toInt8)
    (by simp) (by simp [BigEndian.capacity])

/-- Signed numbers of two bytes. -/
theorem int16 : FixedWidth 2 encodeInt16 decodeInt16 :=
  ofNumbers (fun number : Int16 => number.toUInt16.toNat)
    (fun count => (UInt16.ofNat count).toInt16) (by simp) (by simp [BigEndian.capacity])

/-- Signed numbers of four bytes. -/
theorem int32 : FixedWidth 4 encodeInt32 decodeInt32 :=
  ofNumbers (fun number : Int32 => number.toUInt32.toNat)
    (fun count => (UInt32.ofNat count).toInt32) (by simp) (by simp [BigEndian.capacity])

/-- Signed numbers of eight bytes. -/
theorem int64 : FixedWidth 8 encodeInt64 decodeInt64 :=
  ofNumbers (fun number : Int64 => number.toUInt64.toNat)
    (fun count => (UInt64.ofNat count).toInt64) (by simp) (by simp [BigEndian.capacity])

/-- Doubles. -/
theorem double : FixedWidth 8 Double.encode Double.decode :=
  ofNumbers (fun number : Double => number.bits.toNat) (fun count => ⟨UInt64.ofNat count⟩)
    (by simp) (by simp [BigEndian.capacity])

end FixedWidth

/-! Numbers take as many bytes as they have, whatever they are. -/

/-- A signed byte takes one byte. -/
@[simp] theorem length_encodeInt8 (number : Int8) : (encodeInt8 number).length = 1 :=
  FixedWidth.int8.length_encode number

/-- A number of 16 bits takes two bytes. -/
@[simp] theorem length_encodeInt16 (number : Int16) : (encodeInt16 number).length = 2 :=
  FixedWidth.int16.length_encode number

/-- A number of 32 bits takes four bytes. -/
@[simp] theorem length_encodeInt32 (number : Int32) : (encodeInt32 number).length = 4 :=
  FixedWidth.int32.length_encode number

/-- A number of 64 bits takes eight bytes. -/
@[simp] theorem length_encodeInt64 (number : Int64) : (encodeInt64 number).length = 8 :=
  FixedWidth.int64.length_encode number

/-- A double takes eight bytes. -/
@[simp] theorem length_encodeDouble (number : Double) : (Double.encode number).length = 8 :=
  FixedWidth.double.length_encode number

/-- A number that is not negative is written as a plain number, and it lies below the sign bit. -/
theorem encodeInt32_of_nonneg {number : Int32} (nonneg : 0 ≤ number.toInt) :
    encodeInt32 number = BigEndian.encode 4 number.toInt.toNat ∧
      number.toInt.toNat < 0x80000000 := by
  have plain : number.toUInt32.toNat = number.toNatClampNeg :=
    Int32.toNat_toUInt32_of_le (Int32.le_iff_toInt_le.mpr nonneg)
  refine ⟨by rw [encodeInt32, plain]; rfl, ?_⟩
  have bound := number.toInt_lt
  omega

/-- A number below the sign bit is that of a word, which is not negative. -/
theorem toInt_ofNat_toNat {number : Nat} (small : number < 0x80000000) :
    0 ≤ (Int32.ofNat number).toInt ∧ (Int32.ofNat number).toInt.toNat = number := by
  rw [Int32.toInt_ofNat_of_lt small]
  exact ⟨Int.natCast_nonneg number, Int.toNat_natCast number⟩

end SchemaCodec
