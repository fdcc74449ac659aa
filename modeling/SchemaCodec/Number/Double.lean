import SchemaCodec.Bytes.BigEndian

/-!
# Binary64 numbers as words

A double is its 64 bits: two numbers are one exactly when their bits agree, so every NaN payload and
both zeros stay apart. The total order puts the numbers with a sign bit first, in descending order
of their magnitude, and the others after them in ascending order.
-/

namespace SchemaCodec

/-- A binary64 number, identified by its bits. So there are two zeros and many that are no numbers,
and each is equal to itself only. -/
structure Double where
  bits : UInt64
deriving DecidableEq, Repr, Inhabited

namespace Double

/-- The weight of the sign bit. -/
def signWeight : Nat := 0x8000000000000000

/-- A position in the total order: the sign bit reverses the order of the magnitudes. -/
def orderKey (number : Double) : Nat :=
  if number.bits.toNat < signWeight then signWeight + number.bits.toNat
  else 2 * signWeight - 1 - number.bits.toNat

/-- The total order of IEEE 754, by position. -/
instance : Ord Double where
  compare first second := compare first.orderKey second.orderKey

/-- No two numbers share a position, so numbers that compare equal are the same bits. -/
theorem orderKey_injective {first second : Double} (same : first.orderKey = second.orderKey) :
    first = second := by
  have firstBound := first.bits.toNat_lt
  have secondBound := second.bits.toNat_lt
  unfold orderKey signWeight at same
  have words : first.bits.toNat = second.bits.toNat := by
    by_cases firstPositive : first.bits.toNat < 0x8000000000000000 <;>
      by_cases secondPositive : second.bits.toNat < 0x8000000000000000 <;>
      simp only [firstPositive, secondPositive, if_true, if_false] at same <;> omega
  cases first
  cases second
  exact congrArg Double.mk (UInt64.toNat_inj.mp words)

/-- The number whose magnitude is spelled by the low 63 bits. -/
def ofMagnitude (negative : Bool) (magnitude : Nat) : Double :=
  ⟨UInt64.ofNat ((if negative then signWeight else 0) + magnitude)⟩

/-- The sign bit. -/
def isNegative (number : Double) : Bool := signWeight ≤ number.bits.toNat

/-- The bits without the sign. -/
def magnitude (number : Double) : Nat := number.bits.toNat % signWeight

/-- The weight of the lowest bit of the exponent; the fraction stands below it. -/
def exponentWeight : Nat := 0x10000000000000

/-- The magnitude of both infinities; every magnitude above it is a NaN. -/
def infiniteMagnitude : Nat := 0x7FF * exponentWeight

/-- The eight bytes of a number, sign and exponent first. -/
def encode (number : Double) : Bytes := BigEndian.encode 8 number.bits.toNat

/-- The number spelled by eight bytes. -/
def decode (bytes : Bytes) : Double := ⟨UInt64.ofNat (BigEndian.decode bytes)⟩

end Double

end SchemaCodec
