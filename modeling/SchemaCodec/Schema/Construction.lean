import SchemaCodec.Schema.Validation

/-!
# Values built for a type

A struct is completed by its declared defaults, a union takes exactly one field, and an enum is
labelled by its members. What is built is checked before it is handed out.
-/

namespace SchemaCodec

/-- A union of exactly one field. Two values for one id are two fields. -/
def Value.unionOf (typeName : String) : List (Int16 × Value) → Except ValueError Value
  | [(id, value)] => .ok (.union id value)
  | fields => .error ⟨.unionArity typeName fields.length, []⟩

namespace Schema

/-- Set each field that is neither set nor optional and has a default. An optional field that is not
set stays away from the value, whatever default it declares. -/
def fillDefaults (declared : List Field) (fields : Value.Fields) : Value.Fields :=
  declared.foldl (fun held field =>
    match field.default with
    | some value =>
      if field.requiredness = .optional || held.contains field.id then held
      else held.insert field.id value
    | none => held) fields

/-- A struct value with the given fields and the defaults of the others. Of several values for one
id the last one counts. The value is checked as a whole, so what is given must be declared and fit,
and what is required must be given or have a default. -/
def newStruct (schema : Schema) (type : DataType) (fields : List (Int16 × Value)) :
    Except ValueError Value := do
  match ← lookedUp (schema.canonical type) with
  | .struct name =>
    let declared ← lookedUp (schema.structType name)
    let value := Value.struct (fillDefaults declared.fields (Value.Fields.ofList fields))
    schema.validate type value
    .ok value
  | other => .error (.mismatch other "struct")

/-- A union value with the one given field. -/
def newUnion (schema : Schema) (type : DataType) (fields : List (Int16 × Value)) :
    Except ValueError Value := do
  let value ← Value.unionOf (type.declaredName?.getD "union") fields
  schema.validate type value
  .ok value

/-- The enum declaration behind a type, through all typedefs. -/
def enumBehind (schema : Schema) (type : DataType) : Except ValueError EnumType := do
  match ← lookedUp (schema.canonical type) with
  | .enum name => lookedUp (schema.enumType name)
  | other => .error (.mismatch other "enum")

/-- A number labelled with the first member that has it, or unlabelled when none has. -/
def enumOfNumber (schema : Schema) (type : DataType) (number : Int32) :
    Except ValueError Value := do
  let declared ← schema.enumBehind type
  .ok (.enum number ((declared.memberByNumber? number).map (·.name)))

/-- The number of a member, labelled with its name. -/
def enumOfName (schema : Schema) (type : DataType) (member : String) : Except ValueError Value := do
  let declared ← schema.enumBehind type
  match declared.memberByName? member with
  | some found => .ok (.enum found.number (some found.name))
  | none => .error ⟨.unknownEnumMember declared.name member, []⟩

end Schema

end SchemaCodec
