import SchemaCodec.Number.Double
import SchemaCodec.Text.Utf8

/-!
# Values

A value has one form per kind of type. Sets, maps and structs are held as lists in the order in
which they are written: elements and keys ascending by the order on values, fields ascending by id.
The operations that keep these lists ascending stand in `Value.Collection` and `Value.Fields`.
-/

namespace SchemaCodec

/-- A value of some type, complete in itself: it names no schema and refers to no other value. -/
inductive Value where
  | bool (value : Bool)
  | byte (value : Int8)
  | i16 (value : Int16)
  | i32 (value : Int32)
  | i64 (value : Int64)
  | double (value : Double)
  | string (text : String)
  | binary (bytes : Bytes)
  | list (items : List Value)
  /-- Distinct elements in ascending order. -/
  | set (elements : List Value)
  /-- Entries with distinct keys in ascending order of the key. -/
  | map (entries : List (Value × Value))
  /-- The fields that are set, in ascending order of the id; structs and exceptions alike. -/
  | struct (fields : List (Int16 × Value))
  | union (id : Int16) (value : Value)
  /-- A number, with the name of the member it stands for when one is known. -/
  | enum (number : Int32) (label : Option String)
deriving Inhabited

namespace Value

/-- The word for a value's kind. -/
def kindName : Value → String
  | bool _ => "bool"
  | byte _ => "byte"
  | i16 _ => "i16"
  | i32 _ => "i32"
  | i64 _ => "i64"
  | double _ => "double"
  | string _ => "string"
  | binary _ => "binary"
  | list _ => "list"
  | set _ => "set"
  | map _ => "map"
  | struct _ => "struct"
  | union _ _ => "union"
  | enum _ _ => "enum"

/-- The truth value, of a bool only. -/
def asBool? : Value → Option Bool
  | bool value => some value
  | _ => none

/-- The number of any integer kind, enums included. -/
def asInt? : Value → Option Int
  | byte value => some value.toInt
  | i16 value => some value.toInt
  | i32 value => some value.toInt
  | i64 value => some value.toInt
  | enum number _ => some number.toInt
  | _ => none

/-- The floating-point number, of a double only. -/
def asDouble? : Value → Option Double
  | double value => some value
  | _ => none

/-- The text, of a string only. -/
def asText? : Value → Option String
  | string text => some text
  | _ => none

/-- The bytes of a binary, or those that encode a string. -/
def asBytes? : Value → Option Bytes
  | binary bytes => some bytes
  | string text => some (Utf8.encode text)
  | _ => none

/-- The items of a list. -/
def asList? : Value → Option (List Value)
  | list items => some items
  | _ => none

/-- The elements of a set, ascending. -/
def asSet? : Value → Option (List Value)
  | set elements => some elements
  | _ => none

/-- The entries of a map, ascending by key. -/
def asMap? : Value → Option (List (Value × Value))
  | map entries => some entries
  | _ => none

/-- The fields of a struct, ascending by id. -/
def asStruct? : Value → Option (List (Int16 × Value))
  | struct fields => some fields
  | _ => none

/-- The one field of a union. -/
def asUnion? : Value → Option (Int16 × Value)
  | union id value => some (id, value)
  | _ => none

/-- The number of an enum, its name left out. -/
def asEnum? : Value → Option Int32
  | enum number _ => some number
  | _ => none

end Value

end SchemaCodec
