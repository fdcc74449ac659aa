import SchemaCodec.Bytes.BigEndian

/-!
# Wire tags

A tag is the byte that tells which kind of value follows on the wire. The codes are fixed and leave
gaps; a byte in a gap is no tag. Each kind has a least size, by which a count is refused before
anything is read when the remaining input cannot hold that many values.
-/

namespace SchemaCodec

/-- The kind of an encoded value, and the end of a field sequence. -/
inductive WireTag where
  | stop | bool | byte | double | i16 | i32 | i64 | string | struct | map | set | list
deriving DecidableEq, Repr

namespace WireTag

/-- The byte that stands for a tag. -/
def code : WireTag → UInt8
  | stop => 0
  | bool => 2
  | byte => 3
  | double => 4
  | i16 => 6
  | i32 => 8
  | i64 => 10
  | string => 11
  | struct => 12
  | map => 13
  | set => 14
  | list => 15

/-- All tags, ascending by code. -/
def all : List WireTag :=
  [stop, bool, byte, double, i16, i32, i64, string, struct, map, set, list]

/-- The tag that a byte stands for. -/
def ofCode? (code : UInt8) : Option WireTag := all.find? (·.code = code)

/-- A byte stands for at most the tag whose code it is. -/
theorem ofCode?_eq_some_iff {code : UInt8} {tag : WireTag} :
    ofCode? code = some tag ↔ tag.code = code := by
  constructor
  · intro found
    simpa using List.find?_some found
  · rintro rfl
    cases tag <;> decide

/-- No two tags share a code. -/
theorem eq_of_code_eq {first second : WireTag} (same : first.code = second.code) :
    first = second := by
  have found := ofCode?_eq_some_iff.mpr same
  rw [ofCode?_eq_some_iff.mpr rfl] at found
  exact (Option.some.inj found).symm

/-- The fewest bytes that a value of this kind occupies. -/
def leastSize : WireTag → Nat
  | stop => 0
  | bool | byte => 1
  | i16 => 2
  | i32 => 4
  | i64 | double => 8
  | string => 4
  | struct => 1
  | map => 6
  | set | list => 5

/-- The word for a tag. -/
def name : WireTag → String
  | stop => "stop"
  | bool => "bool"
  | byte => "byte"
  | double => "double"
  | i16 => "i16"
  | i32 => "i32"
  | i64 => "i64"
  | string => "string"
  | struct => "struct"
  | map => "map"
  | set => "set"
  | list => "list"

/-- The word for a tag, with its code. -/
def display (tag : WireTag) : String :=
  tag.name ++ " (" ++ toString tag.code.toNat ++ ")"

end WireTag

end SchemaCodec
