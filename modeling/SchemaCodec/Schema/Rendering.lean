import SchemaCodec.Schema.Basic
import SchemaCodec.Text.Blank
import SchemaCodec.Value.RawText

/-!
# Values in text, with the names of their schema

A value is rendered on one line or over several, its fields by name and its enums by member. Where
the schema does not explain a value, its form is shown instead, so rendering never fails.
-/

namespace SchemaCodec

/-- Bytes in pairs of hexadecimal digits. -/
def hexPairs (bytes : Bytes) : String :=
  " ".intercalate (bytes.map fun byte =>
    String.ofList [Nat.digitChar (byte.toNat / 16), Nat.digitChar (byte.toNat % 16)])

/-- A qualified name without its module, which is all up to the last dot. -/
def shortName (name : String) : String :=
  String.ofList (name.toList.reverse.takeWhile (· ≠ '.')).reverse

namespace Schema

/-- The declared fields of a struct, none where it is unknown. -/
def structFields (schema : Schema) (name : String) : List Field :=
  match schema.structType name with
  | .ok declared => declared.fields
  | .error _ => []

/-- The declared fields of a union, none where it is unknown. -/
def unionFields (schema : Schema) (name : String) : List Field :=
  match schema.unionType name with
  | .ok declared => declared.fields
  | .error _ => []

/-- An enum by its label, else by the member that has its number, else by the number. -/
def formatEnum (schema : Schema) (name : String) (number : Int32) (label : Option String) :
    String :=
  let member :=
    match schema.enumType name with
    | .ok declared => (declared.memberByNumber? number).map (·.name)
    | .error _ => none
  (label.or member).getD (toString number.toInt)

/-- The text of a field that its owner does not declare. -/
def formatUnknownField (id : Int16) (value : Value) : String :=
  "#" ++ toString id.toInt ++ ": " ++ value.rawText

mutual

/-- A value on one line. A truth value, a number, a text or bytes are shown without a look at the
type. Otherwise the type behind all typedefs must be of the same kind, and where it is not, the raw
form of the value is shown. So every pair of a value and a type has a text. -/
def format (schema : Schema) : Value → DataType → String
  | value, type =>
    match value, (schema.canonical type).toOption with
    | .bool held, _ => if held then "true" else "false"
    | .byte number, _ => toString number.toInt
    | .i16 number, _ => toString number.toInt
    | .i32 number, _ => toString number.toInt
    | .i64 number, _ => toString number.toInt
    | .double number, _ => number.display
    | .string text, _ => quoted text
    | .binary bytes, _ => "hex(" ++ hexPairs bytes ++ ")"
    | .list items, some (.list element) =>
      "[" ++ ", ".intercalate (schema.formatItems items element) ++ "]"
    | .set elements, some (.set element) =>
      "\x7b" ++ ", ".intercalate (schema.formatItems elements element) ++ "\x7d"
    | .map entries, some (.map keyType valueType) =>
      "\x7b" ++ ", ".intercalate (schema.formatEntries entries keyType valueType) ++ "\x7d"
    | .struct fields, some (.struct name) =>
      shortName name ++ " \x7b" ++
        ", ".intercalate (schema.formatFields fields (schema.structFields name)) ++ "\x7d"
    | .union id held, some (.union name) =>
      let field :=
        match fieldById? (schema.unionFields name) id with
        | some field => field.name ++ ": " ++ schema.format held field.type
        | none => formatUnknownField id held
      shortName name ++ " \x7b" ++ field ++ "\x7d"
    | .enum number label, some (.enum name) => schema.formatEnum name number label
    | other, _ => other.rawText
termination_by structural value => value

/-- Values of one type, each on one line. -/
def formatItems (schema : Schema) : List Value → DataType → List String
  | [], _ => []
  | item :: rest, type => schema.format item type :: schema.formatItems rest type
termination_by structural items => items

/-- Entries, each on one line. -/
def formatEntries (schema : Schema) :
    List (Value × Value) → DataType → DataType → List String
  | [], _, _ => []
  | (key, value) :: rest, keyType, valueType =>
    (schema.format key keyType ++ ": " ++ schema.format value valueType) ::
      schema.formatEntries rest keyType valueType
termination_by structural entries => entries

/-- Fields, each on one line. -/
def formatFields (schema : Schema) : List (Int16 × Value) → List Field → List String
  | [], _ => []
  | (id, value) :: rest, declared =>
    (match fieldById? declared id with
      | some field => field.name ++ ": " ++ schema.format value field.type
      | none => formatUnknownField id value) ::
      schema.formatFields rest declared
termination_by structural fields => fields

end

/-- Two spaces for each level. -/
def padding (indent : Nat) : String := String.ofList (List.replicate (2 * indent) ' ')

mutual

/-- A value over several lines: one for each field of a struct or union and for each item of a
list. -/
def dump (schema : Schema) : Value → DataType → Nat → String
  | value, type, indent =>
    match value, (schema.canonical type).toOption with
    | .struct fields, some (.struct name) =>
      "\n".intercalate ((padding indent ++ shortName name ++ " \x7b") ::
        schema.dumpFields fields (schema.structFields name) (indent + 1) ++
          [padding indent ++ "\x7d"])
    | .union id held, some (.union name) =>
      let field :=
        match fieldById? (schema.unionFields name) id with
        | some field =>
          field.name ++ ": " ++ trimStart (schema.dump held field.type (indent + 1))
        | none => formatUnknownField id held
      "\n".intercalate [padding indent ++ shortName name ++ " \x7b",
        padding (indent + 1) ++ field, padding indent ++ "\x7d"]
    | .list (item :: rest), some (.list element) =>
      "\n".intercalate ((padding indent ++ "[") ::
        schema.dumpItems (item :: rest) element indent 0 ++ [padding indent ++ "]"])
    | _, _ => padding indent ++ schema.format value type
termination_by structural value => value

/-- The lines of a list's items, each with its position. -/
def dumpItems (schema : Schema) : List Value → DataType → Nat → Nat → List String
  | [], _, _, _ => []
  | item :: rest, type, indent, position =>
    (padding indent ++ "  [" ++ toString position ++ "] " ++
      trimStart (schema.dump item type (indent + 1))) ::
      schema.dumpItems rest type indent (position + 1)
termination_by structural items => items

/-- The lines of a struct's fields, in the order in which the struct holds them. A field starts with
its name, and what it holds follows behind the name over as many lines as it takes, under the same
indentation. -/
def dumpFields (schema : Schema) : List (Int16 × Value) → List Field → Nat → List String
  | [], _, _ => []
  | (id, value) :: rest, declared, indent =>
    (match fieldById? declared id with
      | some field =>
        padding indent ++ field.name ++ ": " ++ trimStart (schema.dump value field.type indent)
      | none => padding indent ++ formatUnknownField id value) ::
      schema.dumpFields rest declared indent
termination_by structural fields => fields

end

/-- The first line of a value over several lines. -/
def summary (schema : Schema) (type : DataType) (value : Value) : String :=
  trim (firstLine (schema.dump value type 0))

end Schema

end SchemaCodec
