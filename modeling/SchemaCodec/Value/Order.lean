import SchemaCodec.Value.Basic

/-!
# The order on values

Values are ordered by kind first and by content second. Containers compare element by element with a
proper prefix first, strings by their bytes, doubles by their total order, and enums by their number
alone: the name of a member is a label and takes no part.
-/

namespace SchemaCodec.Value

/-- The place of a kind among the kinds. It only counts between values of different kinds, so no two
kinds may share a place. -/
def rank : Value → Nat
  | bool _ => 0
  | byte _ => 1
  | i16 _ => 2
  | i32 _ => 3
  | i64 _ => 4
  | double _ => 5
  | string _ => 6
  | binary _ => 7
  | list _ => 8
  | set _ => 9
  | map _ => 10
  | struct _ => 11
  | union _ _ => 12
  | enum _ _ => 13

mutual

/-- The order on values. Two values of different kinds are ordered by their kinds, and two of one
kind by what they hold; of two unions the one with the smaller id comes first. It is total, and it
tells all values apart except for the labels of enums. -/
def order : Value → Value → Ordering
  | bool first, bool second => compare first second
  | byte first, byte second => compare first second
  | i16 first, i16 second => compare first second
  | i32 first, i32 second => compare first second
  | i64 first, i64 second => compare first second
  | double first, double second => compare first second
  | string first, string second => compare (Utf8.encode first) (Utf8.encode second)
  | binary first, binary second => compare first second
  | list first, list second => orderList first second
  | set first, set second => orderList first second
  | map first, map second => orderEntries first second
  | struct first, struct second => orderFields first second
  | union firstId first, union secondId second =>
    (compare firstId secondId).then (order first second)
  | enum first _, enum second _ => compare first second
  | first, second => compare first.rank second.rank
termination_by structural first => first

/-- The order on sequences of values: the first difference decides, and a proper prefix comes
first. -/
def orderList : List Value → List Value → Ordering
  | [], [] => .eq
  | [], _ :: _ => .lt
  | _ :: _, [] => .gt
  | first :: firstRest, second :: secondRest =>
    (order first second).then (orderList firstRest secondRest)
termination_by structural first => first

/-- The order on sequences of entries: each key weighs more than its value. -/
def orderEntries : List (Value × Value) → List (Value × Value) → Ordering
  | [], [] => .eq
  | [], _ :: _ => .lt
  | _ :: _, [] => .gt
  | (firstKey, first) :: firstRest, (secondKey, second) :: secondRest =>
    (order firstKey secondKey).then
      ((order first second).then (orderEntries firstRest secondRest))
termination_by structural first => first

/-- The order on sequences of fields: each id weighs more than its value. -/
def orderFields : List (Int16 × Value) → List (Int16 × Value) → Ordering
  | [], [] => .eq
  | [], _ :: _ => .lt
  | _ :: _, [] => .gt
  | (firstId, first) :: firstRest, (secondId, second) :: secondRest =>
    (compare firstId secondId).then
      ((order first second).then (orderFields firstRest secondRest))
termination_by structural first => first

end

/-- Values are equal when neither precedes the other. -/
instance : BEq Value where
  beq first second := (order first second).isEq

end SchemaCodec.Value
