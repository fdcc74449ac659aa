import SchemaCodec.Wire.Tag

/-!
# Data types

A data type is a primitive, a container of data types, or the qualified name of a declaration. Names
keep recursive declarations finite: a type never holds the declaration that it names.
-/

namespace SchemaCodec

/-- A type of values, as a linked schema refers to it. -/
inductive DataType where
  | bool | byte | i16 | i32 | i64 | double | string | binary
  | list (element : DataType)
  | set (element : DataType)
  | map (key value : DataType)
  /-- A struct or an exception. -/
  | struct (name : String)
  | union (name : String)
  | enum (name : String)
  | typedef (name : String)
deriving DecidableEq, Repr, Inhabited

namespace DataType

/-- The tag of a type's values. A typedef has none of its own: it has that of its target. -/
def wireTag? : DataType → Option WireTag
  | bool => some .bool
  | byte => some .byte
  | i16 => some .i16
  | i32 | enum _ => some .i32
  | i64 => some .i64
  | double => some .double
  | string | binary => some .string
  | list _ => some .list
  | set _ => some .set
  | map _ _ => some .map
  | struct _ | union _ => some .struct
  | typedef _ => none

/-- The qualified name in a type that names a declaration. -/
def declaredName? : DataType → Option String
  | struct name | union name | enum name | typedef name => some name
  | _ => none

/-- The text of a type. -/
def display : DataType → String
  | bool => "bool"
  | byte => "byte"
  | i16 => "i16"
  | i32 => "i32"
  | i64 => "i64"
  | double => "double"
  | string => "string"
  | binary => "binary"
  | list element => "list<" ++ element.display ++ ">"
  | set element => "set<" ++ element.display ++ ">"
  | map key value => "map<" ++ key.display ++ ", " ++ value.display ++ ">"
  | struct name | union name | enum name | typedef name => name

end DataType

end SchemaCodec
