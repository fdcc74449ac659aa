import SchemaCodec.Schema.Basic
import SchemaCodec.Value.Collection
import SchemaCodec.Value.Path

/-!
# Values that fit a type

A value fits a type when its kind is that of the type behind all typedefs and every value inside it
fits in turn, no deeper than a limit. The first value that does not fit is reported with the path
that leads to it: elements in order, keys before their values, and fields ascending by id.
-/

namespace SchemaCodec

/-- What is wrong with a value, seen from that value itself. The path that leads to the value is
kept beside the fault, so that a fault need not know where it lies. -/
inductive ValueFault where
  | wrongVariant (expected found : String)
  | missingRequiredField (type : String) (id : Int16) (name : String)
  | undeclaredField (type : String) (id : Int16)
  | unionArity (type : String) (count : Nat)
  | unknownEnumMember (type member : String)
  | enumNameMismatch (type member : String) (number : Int32)
  | unknownType (reason : String)
  | tooDeep (limit : Nat)
deriving DecidableEq, Repr

/-- The text of a fault. -/
def ValueFault.message : ValueFault → String
  | wrongVariant expected found => "expected " ++ expected ++ ", found " ++ found
  | missingRequiredField type id name =>
    "missing required field " ++ toString id.toInt ++ " (" ++ name ++ ") of " ++ type
  | undeclaredField type id => "field " ++ toString id.toInt ++ " is not declared by " ++ type
  | unionArity type count =>
    "union " ++ type ++ " must hold exactly one field, found " ++ toString count
  | unknownEnumMember type member => "enum " ++ type ++ " has no member " ++ member
  | enumNameMismatch type member number =>
    "enum value " ++ toString number.toInt ++ " is tagged " ++ member ++
      ", which is not a member of " ++ type ++ " with that value"
  | unknownType reason => "unknown type: " ++ reason
  | tooDeep limit => "nesting deeper than " ++ toString limit ++ " levels"

/-- A fault together with the path to the value that has it. -/
structure ValueError where
  fault : ValueFault
  path : FieldPath := []
deriving DecidableEq, Repr

namespace ValueError

/-- The text of an error. -/
def message (error : ValueError) : String :=
  error.fault.message ++ " at " ++ error.path.display

/-- The same error, seen from the value around. -/
def within (step : PathStep) (error : ValueError) : ValueError :=
  { error with path := step :: error.path }

/-- A failed lookup, as a fault of the value whose type was looked up. -/
def ofLookup (error : LookupError) : ValueError := ⟨.unknownType error.message, []⟩

/-- A value of one kind where a type asks for another. -/
def mismatch (expected : DataType) (found : String) : ValueError :=
  ⟨.wrongVariant expected.display found, []⟩

end ValueError

namespace Schema

/-- The nesting that is accepted where nothing else is asked for. -/
def defaultDepth : Nat := 64

/-- Run a check inside a value: its error gains the step that leads there. -/
def insideValue (step : PathStep) (outcome : Except ValueError α) : Except ValueError α :=
  outcome.mapError (·.within step)

/-- Run a lookup: its failure is a fault of the value at hand. -/
def lookedUp (outcome : Except LookupError α) : Except ValueError α :=
  outcome.mapError ValueError.ofLookup

/-- The first required field that is not set. -/
def missingRequired? (fields : List Field) (isSet : Int16 → Bool) : Option Field :=
  fields.find? fun field => field.requiredness = .required && !isSet field.id

/-- A label must name a member, and that member must have the labelled number. A number without a
label fits whether or not a member has it. -/
def checkLabel (declared : EnumType) (number : Int32) : Option String → Except ValueError Unit
  | none => .ok ()
  | some label =>
    match declared.memberByName? label with
    | none => .error ⟨.unknownEnumMember declared.name label, []⟩
    | some member =>
      if member.number = number then .ok ()
      else .error ⟨.enumNameMismatch declared.name label number, []⟩

/-- What a value at a depth must be: the type behind all typedefs, if the depth is within the
limit. -/
def expectedAt (schema : Schema) (limit : Nat) (type : DataType) (depth : Nat) :
    Except ValueError DataType :=
  if limit < depth then .error ⟨.tooDeep limit, []⟩ else lookedUp (schema.canonical type)

/-- A value without parts fits the one type that has its kind. -/
def checkPrimitive (schema : Schema) (limit : Nat) (kind type : DataType) (depth : Nat) :
    Except ValueError Unit := do
  let expected ← schema.expectedAt limit type depth
  if expected = kind then .ok () else .error (.mismatch expected kind.display)

mutual

/-- Check a value that lies `depth` levels below the outermost one. The depth is checked first and
the kind second. In a struct, what is required is checked before the fields that are there, so a
missing field is reported even if another one does not fit. -/
def checkValue (schema : Schema) (limit : Nat) : Value → DataType → Nat → Except ValueError Unit
  | .bool _, type, depth => schema.checkPrimitive limit .bool type depth
  | .byte _, type, depth => schema.checkPrimitive limit .byte type depth
  | .i16 _, type, depth => schema.checkPrimitive limit .i16 type depth
  | .i32 _, type, depth => schema.checkPrimitive limit .i32 type depth
  | .i64 _, type, depth => schema.checkPrimitive limit .i64 type depth
  | .double _, type, depth => schema.checkPrimitive limit .double type depth
  | .string _, type, depth => schema.checkPrimitive limit .string type depth
  | .binary _, type, depth => schema.checkPrimitive limit .binary type depth
  | .list items, type, depth => do
    match ← schema.expectedAt limit type depth with
    | .list element => schema.checkElements limit items element (depth + 1) 0
    | other => .error (.mismatch other "list")
  | .set elements, type, depth => do
    match ← schema.expectedAt limit type depth with
    | .set element => schema.checkElements limit elements element (depth + 1) 0
    | other => .error (.mismatch other "set")
  | .map entries, type, depth => do
    match ← schema.expectedAt limit type depth with
    | .map keyType valueType => schema.checkEntries limit entries keyType valueType (depth + 1) 0
    | other => .error (.mismatch other "map")
  | .struct fields, type, depth => do
    match ← schema.expectedAt limit type depth with
    | .struct name =>
      let declared ← lookedUp (schema.structType name)
      match missingRequired? declared.fields (Value.Fields.contains fields) with
      | some field => .error ⟨.missingRequiredField name field.id field.name, []⟩
      | none => schema.checkFields limit fields name declared.fields (depth + 1)
    | other => .error (.mismatch other "struct")
  | .union id held, type, depth => do
    match ← schema.expectedAt limit type depth with
    | .union name =>
      let declared ← lookedUp (schema.unionType name)
      match fieldById? declared.fields id with
      | none => .error ⟨.undeclaredField name id, []⟩
      | some field => insideValue (.field id) (schema.checkValue limit held field.type (depth + 1))
    | other => .error (.mismatch other "union")
  | .enum number label, type, depth => do
    match ← schema.expectedAt limit type depth with
    | .enum name =>
      let declared ← lookedUp (schema.enumType name)
      checkLabel declared number label
    | other => .error (.mismatch other "enum")
termination_by structural value => value

/-- Check elements of one type from a position on. -/
def checkElements (schema : Schema) (limit : Nat) :
    List Value → DataType → Nat → Nat → Except ValueError Unit
  | [], _, _, _ => .ok ()
  | value :: rest, type, depth, position => do
    insideValue (.index position) (schema.checkValue limit value type depth)
    schema.checkElements limit rest type depth (position + 1)
termination_by structural values => values

/-- Check entries of one key type and one value type from a position on. The key of an entry is
checked before its value, and both are named by the position of the entry. -/
def checkEntries (schema : Schema) (limit : Nat) :
    List (Value × Value) → DataType → DataType → Nat → Nat → Except ValueError Unit
  | [], _, _, _, _ => .ok ()
  | (key, value) :: rest, keyType, valueType, depth, position => do
    insideValue (.key position) (schema.checkValue limit key keyType depth)
    insideValue (.value position) (schema.checkValue limit value valueType depth)
    schema.checkEntries limit rest keyType valueType depth (position + 1)
termination_by structural entries => entries

/-- Check the fields of a struct against its declared fields, in the order in which the struct holds
them. An undeclared field is a fault of the struct and not of the field, so the path ends in front
of it. -/
def checkFields (schema : Schema) (limit : Nat) :
    List (Int16 × Value) → String → List Field → Nat → Except ValueError Unit
  | [], _, _, _ => .ok ()
  | (id, value) :: rest, name, declared, depth =>
    match fieldById? declared id with
    | none => .error ⟨.undeclaredField name id, []⟩
    | some field => do
      insideValue (.field id) (schema.checkValue limit value field.type depth)
      schema.checkFields limit rest name declared depth
termination_by structural fields => fields

end

/-- Check a whole value with the default nesting limit. -/
def validate (schema : Schema) (type : DataType) (value : Value) : Except ValueError Unit :=
  schema.checkValue defaultDepth value type 0

end Schema

end SchemaCodec
