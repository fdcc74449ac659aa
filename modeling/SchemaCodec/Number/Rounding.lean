import SchemaCodec.Number.Double

/-!
# The double nearest to a fraction

A nonnegative fraction is rounded to the nearest double, and halfway cases go to the even neighbour.
A decimal number is such a fraction, so a decimal text and an integer are rounded by the same rule.
Too large a number becomes infinite and too small a one becomes zero.
-/

namespace SchemaCodec

/-- The integer nearest to a fraction; of two equally near ones, the even one. -/
def roundHalfEven (numerator denominator : Nat) : Nat :=
  let quotient := numerator / denominator
  let doubled := 2 * (numerator % denominator)
  if doubled < denominator then quotient
  else if denominator < doubled then quotient + 1
  else quotient + quotient % 2

/-- The exponent of the largest power of two that a positive fraction reaches. -/
def binaryExponent (numerator denominator : Nat) : Int :=
  let estimate := (Nat.log2 numerator : Int) - Nat.log2 denominator
  let reached :=
    if 0 ≤ estimate then denominator * Nat.pow 2 estimate.toNat ≤ numerator
    else denominator ≤ numerator * Nat.pow 2 (-estimate).toNat
  if reached then estimate else estimate - 1

namespace Double

/-- The bits of the double nearest to a positive fraction. The fraction is counted in units of its
last place; a carry out of the significand moves into the exponent field and keeps the meaning. -/
def magnitudeOfFraction (numerator denominator : Nat) : Nat :=
  let place := max (binaryExponent numerator denominator - 52) (-1074)
  let significand :=
    if 0 ≤ place then roundHalfEven numerator (denominator * Nat.pow 2 place.toNat)
    else roundHalfEven (numerator * Nat.pow 2 (-place).toNat) denominator
  min infiniteMagnitude ((place + 1074).toNat * exponentWeight + significand)

/-- The double nearest to an integer. -/
def ofInt (number : Int) : Double :=
  if number = 0 then ⟨0⟩
  else ofMagnitude (number < 0) (magnitudeOfFraction number.natAbs 1)

end Double

/-- A decimal number: a signed coefficient scaled by a power of ten. -/
structure Decimal where
  negative : Bool
  coefficient : Nat
  exponent : Int
deriving DecidableEq, Repr

/-- The double nearest to a decimal number. A scale that certainly leaves the range of doubles is
not computed: the coefficient lies below a power of ten with as many zeros as it has bits. -/
def Decimal.toDouble (decimal : Decimal) : Double :=
  let magnitude :=
    if decimal.coefficient = 0 then 0
    else if 400 < decimal.exponent then Double.infiniteMagnitude
    else if decimal.exponent < -400 - (Nat.log2 decimal.coefficient + 1 : Nat) then 0
    else if 0 ≤ decimal.exponent then
      Double.magnitudeOfFraction (decimal.coefficient * Nat.pow 10 decimal.exponent.toNat) 1
    else Double.magnitudeOfFraction decimal.coefficient (Nat.pow 10 (-decimal.exponent).toNat)
  Double.ofMagnitude decimal.negative magnitude

end SchemaCodec
