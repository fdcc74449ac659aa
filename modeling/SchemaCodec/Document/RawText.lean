import SchemaCodec.Document.Basic
import SchemaCodec.Number.Shortest
import SchemaCodec.Text.Quoted

/-!
# Literals and references in error messages

An error about a literal or a reference shows its form: the kind of each part, with its content in
parentheses.
-/

namespace SchemaCodec

/-- The word for a base type. -/
def BaseType.rawText : BaseType → String
  | bool => "Bool"
  | byte => "Byte"
  | i16 => "I16"
  | i32 => "I32"
  | i64 => "I64"
  | double => "Double"
  | string => "String"
  | binary => "Binary"

/-- The form of a reference. -/
def TypeReference.rawText : TypeReference → String
  | base type => "Base(" ++ type.rawText ++ ")"
  | list element => "List(" ++ element.rawText ++ ")"
  | set element => "Set(" ++ element.rawText ++ ")"
  | map key value => "Map(" ++ key.rawText ++ ", " ++ value.rawText ++ ")"
  | named name span =>
    "Named \x7b name: " ++ quoted name ++ ", span: Span \x7b line: " ++ toString span.line ++
      ", column: " ++ toString span.column ++ " \x7d \x7d"

namespace Literal

mutual

/-- The form of a literal. -/
def rawText : Literal → String
  | int number => "Int(" ++ toString number ++ ")"
  | double number => "Double(" ++ number.display ++ ")"
  | text content => "Literal(" ++ quoted content ++ ")"
  | identifier name => "Identifier(" ++ quoted name ++ ")"
  | list items => "List([" ++ ", ".intercalate (rawItems items) ++ "])"
  | map entries => "Map([" ++ ", ".intercalate (rawEntries entries) ++ "])"
termination_by structural literal => literal

/-- The forms of some literals. -/
def rawItems : List Literal → List String
  | [] => []
  | item :: rest => rawText item :: rawItems rest
termination_by structural items => items

/-- The forms of some pairs of literals. -/
def rawEntries : List (Literal × Literal) → List String
  | [] => []
  | (key, value) :: rest =>
    ("(" ++ rawText key ++ ", " ++ rawText value ++ ")") :: rawEntries rest
termination_by structural entries => entries

end

end Literal

end SchemaCodec
