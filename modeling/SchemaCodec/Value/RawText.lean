import SchemaCodec.Number.Shortest
import SchemaCodec.Text.Quoted
import SchemaCodec.Value.Basic

/-!
# Values without a schema, in text

A value that its type does not explain is shown by its form: the kind of each part, with its content
in parentheses.
-/

namespace SchemaCodec.Value

/-- The forms of parts, separated by commas. -/
def commaSeparated (parts : List String) : String := ", ".intercalate parts

mutual

/-- The form of a value. -/
def rawText : Value → String
  | bool value => "Bool(" ++ (if value then "true" else "false") ++ ")"
  | byte number => "Byte(" ++ toString number.toInt ++ ")"
  | i16 number => "I16(" ++ toString number.toInt ++ ")"
  | i32 number => "I32(" ++ toString number.toInt ++ ")"
  | i64 number => "I64(" ++ toString number.toInt ++ ")"
  | double number => "Double(" ++ number.display ++ ")"
  | string text => "String(" ++ quoted text ++ ")"
  | binary bytes => "Binary([" ++ commaSeparated (bytes.map fun byte => toString byte.toNat) ++ "])"
  | list items => "List([" ++ commaSeparated (rawItems items) ++ "])"
  | set elements => "Set(\x7b" ++ commaSeparated (rawItems elements) ++ "\x7d)"
  | map entries => "Map(\x7b" ++ commaSeparated (rawEntries entries) ++ "\x7d)"
  | struct fields =>
    "Struct(StructValue \x7b fields: \x7b" ++ commaSeparated (rawFields fields) ++ "\x7d \x7d)"
  | union id value =>
    "Union(UnionValue \x7b id: " ++ toString id.toInt ++ ", value: " ++ rawText value ++ " \x7d)"
  | enum number label =>
    "Enum(EnumValue \x7b value: " ++ toString number.toInt ++ ", name: " ++ quotedOption label ++
      " \x7d)"
termination_by structural value => value

/-- The forms of some values. -/
def rawItems : List Value → List String
  | [] => []
  | item :: rest => rawText item :: rawItems rest
termination_by structural items => items

/-- The forms of some entries. -/
def rawEntries : List (Value × Value) → List String
  | [] => []
  | (key, value) :: rest => (rawText key ++ ": " ++ rawText value) :: rawEntries rest
termination_by structural entries => entries

/-- The forms of some fields. -/
def rawFields : List (Int16 × Value) → List String
  | [] => []
  | (id, value) :: rest => (toString id.toInt ++ ": " ++ rawText value) :: rawFields rest
termination_by structural fields => fields

end

end SchemaCodec.Value
