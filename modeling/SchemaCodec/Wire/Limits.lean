/-!
# Limits

Nesting is limited in both directions. Lengths and counts are limited on the way in only, so that no
prefix can ask for more than the reader is ready to hold.
-/

namespace SchemaCodec

/-- What a reader accepts at most. The limits guard a reader against prefixes that ask for too much;
writing looks at the depth only, since its value is at hand already. -/
structure Limits where
  /-- The deepest nesting of values. -/
  depth : Nat := 64
  /-- The greatest length of a string or binary. -/
  stringLength : Nat := 64 * 1024 * 1024
  /-- The greatest count of a list, set or map. -/
  containerLength : Nat := 16 * 1024 * 1024
deriving DecidableEq, Repr

end SchemaCodec
