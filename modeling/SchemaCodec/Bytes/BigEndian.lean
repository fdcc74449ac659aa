/-!
# Fixed-width numbers, most significant byte first

A number becomes exactly `width` bytes and a byte string becomes the number it spells in base 256.
The main statements say that the two maps are inverse on numbers that fit and on all byte strings.
Signed words travel as their two's complement.
-/

namespace SchemaCodec

/-- A byte string, the only thing that reaches or leaves the wire. -/
abbrev Bytes := List UInt8

namespace BigEndian

/-- How many numbers some bytes tell apart. -/
def capacity : Nat → Nat
  | 0 => 1
  | width + 1 => capacity width * 256

/-- The `width` low bytes of a number, the most significant first; higher digits are dropped. -/
def encode : Nat → Nat → Bytes
  | 0, _ => []
  | width + 1, number => UInt8.ofNat (number / capacity width) :: encode width number

/-- The number that a byte string spells in base 256, continuing from the digits already read. -/
def decodeFrom : Nat → Bytes → Nat
  | number, [] => number
  | number, byte :: rest => decodeFrom (number * 256 + byte.toNat) rest

/-- The number that a byte string spells in base 256. -/
def decode (bytes : Bytes) : Nat := decodeFrom 0 bytes

/-- Every width has room for a number. -/
theorem capacity_pos (width : Nat) : 0 < capacity width := by
  induction width with
  | zero => decide
  | succ width inductionHypothesis => exact Nat.mul_pos inductionHypothesis (by decide)

/-- A number occupies its width, whatever its size. -/
@[simp] theorem length_encode (width number : Nat) : (encode width number).length = width := by
  induction width with
  | zero => rfl
  | succ width inductionHypothesis => simp [encode, inductionHypothesis]

/-- Digits read before a byte string weigh as much as its bytes tell apart. -/
theorem decodeFrom_eq (number : Nat) (bytes : Bytes) :
    decodeFrom number bytes = number * capacity bytes.length + decode bytes := by
  induction bytes generalizing number with
  | nil => simp [decodeFrom, decode, capacity]
  | cons byte rest inductionHypothesis =>
    simp only [decode, decodeFrom, List.length_cons, capacity]
    rw [inductionHypothesis, inductionHypothesis (0 * 256 + byte.toNat), Nat.add_mul, Nat.zero_mul,
      Nat.zero_add]
    have reorder : number * 256 * capacity rest.length = number * (capacity rest.length * 256) := by
      rw [Nat.mul_assoc, Nat.mul_comm 256]
    omega

/-- A byte string spells its first byte in front of the others. -/
theorem decode_cons (byte : UInt8) (rest : Bytes) :
    decode (byte :: rest) = byte.toNat * capacity rest.length + decode rest := by
  have shifted := decodeFrom_eq byte.toNat rest
  simpa [decode, decodeFrom] using shifted

/-- Reading back a written number keeps its value up to the width. -/
theorem decode_encode (width number : Nat) :
    decode (encode width number) = number % capacity width := by
  induction width with
  | zero => simp [decode, decodeFrom, encode, capacity, Nat.mod_one]
  | succ width inductionHypothesis =>
    have digit : (UInt8.ofNat (number / capacity width)).toNat = number / capacity width % 256 := by
      simp
    rw [encode, decode_cons, length_encode, inductionHypothesis, digit, capacity, Nat.mod_mul,
      Nat.mul_comm (capacity width), Nat.add_comm]

/-- A byte string spells a number that fits in its length. -/
theorem decode_lt (bytes : Bytes) : decode bytes < capacity bytes.length := by
  induction bytes with
  | nil => decide
  | cons byte rest inductionHypothesis =>
    have bound := byte.toNat_lt
    have scaled : byte.toNat * capacity rest.length ≤ 255 * capacity rest.length :=
      Nat.mul_le_mul_right _ (by omega)
    rw [decode_cons, List.length_cons, capacity]
    omega

/-- Every byte string is the written form of the number it spells, whatever digits stand in front.

Proof: by induction on the bytes. The first byte joins the digits in front of it, so what is left to
write is the rest; the digit that division by the capacity of the rest gives back is that byte,
because what stands in front of it is a multiple of 256. -/
theorem encode_add_decode (bytes : Bytes) (front : Nat) :
    encode bytes.length (front * capacity bytes.length + decode bytes) = bytes := by
  induction bytes generalizing front with
  | nil => rfl
  | cons byte rest inductionHypothesis =>
    have regroup : front * capacity (byte :: rest).length + decode (byte :: rest) =
        (front * 256 + byte.toNat) * capacity rest.length + decode rest := by
      rw [decode_cons, List.length_cons, capacity, Nat.add_mul, Nat.mul_assoc,
        Nat.mul_comm (capacity rest.length)]
      omega
    have quotient : ((front * 256 + byte.toNat) * capacity rest.length + decode rest) /
        capacity rest.length = front * 256 + byte.toNat := by
      rw [Nat.mul_comm, Nat.mul_add_div (capacity_pos rest.length),
        Nat.div_eq_of_lt (decode_lt rest), Nat.add_zero]
    rw [regroup, List.length_cons, encode, inductionHypothesis, quotient]
    congr 1
    apply UInt8.toNat_inj.mp
    have bound := byte.toNat_lt
    simp only [UInt8.toNat_ofNat']
    omega

/-- Every byte string is the written form of the number it spells. -/
theorem encode_decode (bytes : Bytes) : encode bytes.length (decode bytes) = bytes := by
  simpa using encode_add_decode bytes 0

end BigEndian

/-- The two's complement byte of a signed byte. -/
def encodeInt8 (number : Int8) : Bytes := BigEndian.encode 1 number.toUInt8.toNat

/-- The two's complement bytes of a 16-bit number. -/
def encodeInt16 (number : Int16) : Bytes := BigEndian.encode 2 number.toUInt16.toNat

/-- The two's complement bytes of a 32-bit number. -/
def encodeInt32 (number : Int32) : Bytes := BigEndian.encode 4 number.toUInt32.toNat

/-- The two's complement bytes of a 64-bit number. -/
def encodeInt64 (number : Int64) : Bytes := BigEndian.encode 8 number.toUInt64.toNat

/-- The signed byte spelled by a byte string, taken from its last byte. -/
def decodeInt8 (bytes : Bytes) : Int8 := (UInt8.ofNat (BigEndian.decode bytes)).toInt8

/-- The 16-bit number spelled by a byte string, taken from its last two bytes. -/
def decodeInt16 (bytes : Bytes) : Int16 := (UInt16.ofNat (BigEndian.decode bytes)).toInt16

/-- The 32-bit number spelled by a byte string, taken from its last four bytes. -/
def decodeInt32 (bytes : Bytes) : Int32 := (UInt32.ofNat (BigEndian.decode bytes)).toInt32

/-- The 64-bit number spelled by a byte string, taken from its last eight bytes. -/
def decodeInt64 (bytes : Bytes) : Int64 := (UInt64.ofNat (BigEndian.decode bytes)).toInt64

end SchemaCodec
