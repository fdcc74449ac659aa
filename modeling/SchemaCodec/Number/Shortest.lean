import SchemaCodec.Number.Double

/-!
# The shortest text of a double

A finite double is written with the fewest digits that still round to it: the multiple of the
coarsest power of ten that lies among the numbers rounding to it, and of two such multiples the
nearer. The layout of these digits is a decision of its own, made in `Double.display`.
-/

namespace SchemaCodec

/-- A decimal grid point: a coefficient at a power of ten. -/
structure GridPoint where
  coefficient : Nat
  exponent : Int
deriving DecidableEq, Repr

/-- The numbers that round to a double, counted in quarters of its last place: the double itself and
the two ends of the interval, which belong to it exactly when the significand is even. -/
structure RoundingInterval where
  lower : Nat
  centre : Nat
  upper : Nat
  endsIncluded : Bool
  /-- The exponent of the quarter place. -/
  exponent : Int
deriving DecidableEq, Repr

namespace RoundingInterval

/-- The interval of a positive finite magnitude. Below a power of two the neighbours are twice as
near, except at the bottom of the range. -/
def ofMagnitude (magnitude : Nat) : RoundingInterval :=
  let field : Nat := magnitude / Double.exponentWeight
  let fraction := magnitude % Double.exponentWeight
  let significand := if field = 0 then fraction else Double.exponentWeight + fraction
  { lower := 4 * significand - (if fraction = 0 ∧ 1 < field then 1 else 2)
    centre := 4 * significand
    upper := 4 * significand + 2
    endsIncluded := significand % 2 = 0
    exponent := (max field 1 : Nat) - (1077 : Int) }

/-- The factors that bring grid points of a power of ten and quarter places to one unit. -/
def commonUnit (interval : RoundingInterval) (exponent : Int) : Nat × Nat :=
  (Nat.pow 10 exponent.toNat * Nat.pow 2 (-interval.exponent).toNat,
    Nat.pow 2 interval.exponent.toNat * Nat.pow 10 (-exponent).toNat)

/-- Whether a number in common units rounds to the double. -/
def contains (interval : RoundingInterval) (place number : Nat) : Bool :=
  if interval.endsIncluded then interval.lower * place ≤ number && number ≤ interval.upper * place
  else interval.lower * place < number && number < interval.upper * place

/-- The multiple of a power of ten that lies in the interval, if any. Only the neighbours of the
centre matter; of two that both lie inside the nearer one is taken, and the upper one when both are
equally near. -/
def gridPoint? (interval : RoundingInterval) (exponent : Int) : Option GridPoint :=
  let (step, place) := interval.commonUnit exponent
  let centre := interval.centre * place
  let below := centre / step
  let belowInside := interval.contains place (below * step)
  let aboveInside := interval.contains place ((below + 1) * step)
  let aboveNearer := (below + 1) * step - centre ≤ centre - below * step
  if aboveInside && (aboveNearer || !belowInside) then some ⟨below + 1, exponent⟩
  else if belowInside then some ⟨below, exponent⟩
  else none

/-- The grid point of the coarsest power of ten from a given one downwards. -/
def coarsest? (interval : RoundingInterval) : Nat → Int → Option GridPoint
  | 0, _ => none
  | attempts + 1, exponent =>
    (interval.gridPoint? exponent).or (interval.coarsest? attempts (exponent - 1))

end RoundingInterval

namespace Double

/-- The shortest decimal that rounds to a positive finite magnitude. No double reaches `10 ^ 309`,
and the finest spacing of doubles exceeds `10 ^ -324`. -/
def shortest (magnitude : Nat) : GridPoint :=
  ((RoundingInterval.ofMagnitude magnitude).coarsest? 634 309).getD ⟨0, 0⟩

/-- The least exponent of a number that is written without an exponent. -/
def positionalFrom : Int := -4

/-- The least exponent above `positionalFrom` from which numbers are written with an exponent
again. -/
def positionalBelow : Int := 16

/-- Digits with a point after the first one, when more than one is there. -/
def pointAfterFirst : List Char → String
  | [] => ""
  | [digit] => digit.toString
  | digit :: rest => digit.toString ++ "." ++ String.ofList rest

/-- The text of a positive grid point: positional with at least one decimal in the middle range, and
digits with a power of ten outside of it. -/
def layout (point : GridPoint) : String :=
  let digits := Nat.toDigits 10 point.coefficient
  let leading := point.exponent + digits.length - 1
  if positionalFrom ≤ leading ∧ leading < positionalBelow then
    if 0 ≤ point.exponent then
      String.ofList (digits ++ List.replicate point.exponent.toNat '0') ++ ".0"
    else if 0 ≤ leading then
      String.ofList (digits.take (leading.toNat + 1)) ++ "." ++
        String.ofList (digits.drop (leading.toNat + 1))
    else "0." ++ String.ofList (List.replicate (-leading - 1).toNat '0' ++ digits)
  else pointAfterFirst digits ++ "e" ++ toString leading

/-- The text of a double. A NaN shows neither sign nor payload, and a zero keeps its sign. -/
def display (number : Double) : String :=
  if infiniteMagnitude < number.magnitude then "NaN"
  else
    let sign := if number.isNegative then "-" else ""
    if number.magnitude = infiniteMagnitude then sign ++ "inf"
    else if number.magnitude = 0 then sign ++ "0.0"
    else sign ++ layout (shortest number.magnitude)

end Double

end SchemaCodec
