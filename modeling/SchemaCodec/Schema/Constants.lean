import SchemaCodec.Number.Rounding
import SchemaCodec.Schema.Construction
import SchemaCodec.Schema.Linking

/-!
# Linking of constants and defaults

A literal becomes a value as its type directs: numbers must be in range, map literals spell structs
and unions by field names, and identifiers stand for truth values, members of enums or other
constants. A constant is linked when it is met or when another one names it.
-/

namespace SchemaCodec

open Linking

/-- The constant or default to which a literal belongs. -/
structure LiteralContext where
  document : Document
  span : Span
  name : String

namespace LiteralContext

/-- An error about the constant or default. -/
def error (context : LiteralContext) (fault : ConstantFault) : LinkError :=
  context.document.errorAt context.span (.invalidConstant context.name fault)

/-- A lookup on behalf of the constant or default. -/
def lookedUp (context : LiteralContext) (outcome : Except LookupError α) : LinkM α :=
  given (outcome.mapError fun error => context.error (.lookup error))

/-- A check on behalf of the constant or default. -/
def checked (context : LiteralContext) (outcome : Except ValueError α) : LinkM α :=
  given (outcome.mapError fun error => context.error (.unfit error))

/-- Stop, because a literal does not have the form of its type. -/
def wrongForm (context : LiteralContext) (literal : Literal) (type : DataType) : LinkM α :=
  fail (context.error (.wrongForm literal type))

/-- The value of a number from minus a bound up to the bound, or an error about its range. -/
def inRange (context : LiteralContext) (bound : Nat) (number : Int) (type : DataType)
    (value : Value) : LinkM Value :=
  if -bound ≤ number ∧ number < bound then pure value
  else fail (context.error (.outOfRange number type))

/-- The field that the key of a map literal names. -/
def fieldOfKey (context : LiteralContext) (declared : List Field) : Literal → LinkM Field
  | .text name | .identifier name =>
    match fieldByName? declared name with
    | some field => pure field
    | none => fail (context.error (.unknownField name))
  | key => fail (context.error (.fieldKey key))

end LiteralContext

namespace Scope

/-- The value of an integer literal. The number must be in the range of its type; a truth value is
spelled by zero and one only; and an enum takes any number of 32 bits, labelled if a member has it.
-/
def convertInt (context : LiteralContext) (number : Int) (type : DataType) : LinkM Value :=
  match type with
  | .bool =>
    if number = 0 then pure (.bool false)
    else if number = 1 then pure (.bool true)
    else context.wrongForm (.int number) type
  | .byte => context.inRange 0x80 number type (.byte (Int8.ofInt number))
  | .i16 => context.inRange 0x8000 number type (.i16 (Int16.ofInt number))
  | .i32 => context.inRange 0x80000000 number type (.i32 (Int32.ofInt number))
  | .i64 => pure (.i64 (Int64.ofInt number))
  | .double => pure (.double (Double.ofInt number))
  | .enum _ => do
    let raw ← context.inRange 0x80000000 number type (.enum (Int32.ofInt number) none)
    let schema ← schema?
    match raw with
    | .enum held _ => context.checked (schema.enumOfNumber type held)
    | other => pure other
  | _ => context.wrongForm (.int number) type

/-- The member of an enum that an identifier names, if its front names that enum. The front is all
before the last dot, and it is looked up like any other name, so it may be qualified with a module.
That there is such a member is not asked here. -/
def memberOfIdentifier (scope : Scope) (context : LiteralContext) (name : String)
    (type : DataType) : Option String :=
  match type, splitLastDot? name with
  | .enum enum, some (front, member) =>
    match scope.lookup context.document front with
    | some (home, found) => if home.qualified found.name = enum then some member else none
    | none => none
  | _, _ => none

/-- The value of an identifier: a truth value, a member of the enum that is asked for, or a constant
that fits the type. The value of a constant is taken over as it is, with the labels that it has and
without new ones. The type is given as declared and behind its typedefs. -/
def convertIdentifier (scope : Scope) (constant : Document → ConstantDefinition → LinkM Value)
    (context : LiteralContext) (name : String) (declared type : DataType) : LinkM Value := do
  if type = .bool ∧ name = "true" then pure (.bool true)
  else if type = .bool ∧ name = "false" then pure (.bool false)
  else
    match scope.memberOfIdentifier context name type with
    | some member =>
      let schema ← schema?
      context.checked (schema.enumOfName type member)
    | none =>
      let (home, found) ← given (scope.lookupAt context.document name context.span)
      match found with
      | .constant definition =>
        let value ← constant home definition
        let schema ← schema?
        context.checked (schema.validate declared value)
        pure value
      | _ =>
        fail (context.document.errorAt context.span (.invalidReference name .constant))

mutual

/-- The value of a literal for a type. The kind of literal and the type behind all typedefs together
decide what is made of it; a pair that does not belong together is an error about its form. A struct
is checked as a whole, since a field that it requires may be missing. Constants that the literal
names are linked by a step that is given. -/
def convert (scope : Scope) (constant : Document → ConstantDefinition → LinkM Value)
    (context : LiteralContext) : Literal → DataType → LinkM Value
  | literal, declared => do
    let schema ← schema?
    let type ← context.lookedUp (schema.canonical declared)
    match literal with
    | .identifier name => scope.convertIdentifier constant context name declared type
    | .int number => convertInt context number type
    | .double number =>
      match type with
      | .double => pure (.double number)
      | _ => context.wrongForm literal type
    | .text text =>
      match type with
      | .string => pure (.string text)
      | .binary => pure (.binary (Utf8.encode text))
      | _ => context.wrongForm literal type
    | .list items =>
      match type with
      | .list element => do
        let values ← scope.convertItems constant context items element
        pure (.list values)
      | .set element => do
        let values ← scope.convertItems constant context items element
        pure (.set (Value.elementsOf values))
      | _ => context.wrongForm literal type
    | .map entries =>
      match type with
      | .map keyType valueType => do
        let values ← scope.convertEntries constant context entries keyType valueType
        pure (.map (Value.entriesOf values))
      | .struct name => do
        let found ← context.lookedUp (schema.structType name)
        let fields ← scope.convertFields constant context entries found.fields
        let value := Value.struct (Value.Fields.ofList fields)
        let schema ← schema?
        context.checked (schema.validate type value)
        pure value
      | .union name => do
        let found ← context.lookedUp (schema.unionType name)
        let fields ← scope.convertFields constant context entries found.fields
        context.checked (Value.unionOf name fields)
      | _ => context.wrongForm literal type
termination_by structural literal => literal

/-- The values of literals for one type, in the order in which they are written. The first one at
fault ends the conversion. -/
def convertItems (scope : Scope) (constant : Document → ConstantDefinition → LinkM Value)
    (context : LiteralContext) : List Literal → DataType → LinkM (List Value)
  | [], _ => pure []
  | item :: rest, type => do
    let value ← scope.convert constant context item type
    let values ← scope.convertItems constant context rest type
    pure (value :: values)
termination_by structural items => items

/-- The entries of a map literal for a key type and a value type, in the order in which they are
written. Keys may repeat here; the map that is built of them keeps the last value of each. -/
def convertEntries (scope : Scope) (constant : Document → ConstantDefinition → LinkM Value)
    (context : LiteralContext) :
    List (Literal × Literal) → DataType → DataType → LinkM (List (Value × Value))
  | [], _, _ => pure []
  | (key, value) :: rest, keyType, valueType => do
    let key ← scope.convert constant context key keyType
    let value ← scope.convert constant context value valueType
    let entries ← scope.convertEntries constant context rest keyType valueType
    pure ((key, value) :: entries)
termination_by structural entries => entries

/-- The entries of a map literal as fields: each key names a field and each value has its type. -/
def convertFields (scope : Scope) (constant : Document → ConstantDefinition → LinkM Value)
    (context : LiteralContext) :
    List (Literal × Literal) → List Field → LinkM (List (Int16 × Value))
  | [], _ => pure []
  | (key, value) :: rest, declared => do
    let field ← context.fieldOfKey declared key
    let value ← scope.convert constant context value field.type
    let fields ← scope.convertFields constant context rest declared
    pure ((field.id, value) :: fields)
termination_by structural entries => entries

end

/-- Link a constant and, before it, the constants that it names; `above` are those that led to it.
No chain of distinct constants is longer than the bound. -/
def linkConstant (scope : Scope) :
    Nat → List String → Document → ConstantDefinition → LinkM Value
  | bound, above, document, definition => do
    let name := document.qualified definition.name
    let schema ← schema?
    match schema.constant? name with
    | some linked => pure linked.value
    | none =>
      let context : LiteralContext := ⟨document, definition.span, name⟩
      if name ∈ above then fail (context.error .cyclic)
      else
        match bound with
        | 0 => fail (context.error .cyclic)
        | bound + 1 =>
          let type ← scope.linkReference document definition.type
          let value ← scope.convert (scope.linkConstant bound (name :: above)) context
            definition.value type
          insertConstant document definition.span ⟨name, type, value⟩
          pure value

/-- Link a constant that a document declares. A constant that was linked before, because another one
names it, is left as it is. -/
def linkIfConstant (scope : Scope) (document : Document) : Definition → LinkM Unit
  | .constant definition => do
    let _ ← scope.linkConstant (scope.size + 1) [] document definition
  | _ => pure ()

/-- The value of a default that was put aside. -/
def convertDefault (scope : Scope) (pending : PendingDefault) : LinkM Value :=
  scope.convert (scope.linkConstant (scope.size + 1) [])
    ⟨pending.document, pending.span, pending.owner ++ "." ++ pending.name⟩
    pending.literal pending.type

end Scope

/-- A field with a default, if it has the id. -/
def Field.withDefault (id : Int16) (value : Value) (field : Field) : Field :=
  if field.id = id then { field with default := some value } else field

/-- A declared type with a default at the field of an id. -/
def TypeDeclaration.withDefault (id : Int16) (value : Value) : TypeDeclaration → TypeDeclaration
  | .struct declared =>
    .struct { declared with fields := declared.fields.map (Field.withDefault id value) }
  | .union declared =>
    .union { declared with fields := declared.fields.map (Field.withDefault id value) }
  | other => other

/-- A method with a default at the argument of an id. -/
def Method.withDefault (id : Int16) (value : Value) (method : Method) : Method :=
  { method with arguments := method.arguments.map (Field.withDefault id value) }

/-- A service with a default at an argument of one of its methods. -/
def Service.withDefault (name : String) (id : Int16) (value : Value) (service : Service) :
    Service :=
  { service with
    methods := service.methods.map fun method =>
      if method.name = name then method.withDefault id value else method }

/-- A schema with a converted default at its field and, for an argument, at its method as well. -/
def Schema.withDefault (schema : Schema) (pending : PendingDefault) (value : Value) : Schema :=
  { schema with
    types :=
      schema.typePositions.modify schema.types pending.owner (·.withDefault pending.id value)
    services :=
      match pending.method with
      | none => schema.services
      | some (service, method) =>
        schema.servicePositions.modify schema.services service
          (·.withDefault method pending.id value) }

namespace Scope

/-- Convert the defaults that were put aside, one after another. -/
def linkDefaults (scope : Scope) : List PendingDefault → LinkM Unit
  | [] => pure ()
  | pending :: rest => do
    let value ← scope.convertDefault pending
    modify fun linking => { linking with schema := linking.schema.withDefault pending value }
    scope.linkDefaults rest

/-- Link all types and services, then all constants, then all defaults, each in the order of the
documents and of the definitions in them. -/
def linkAll (scope : Scope) : LinkM Unit := do
  scope.documents.forM fun document => document.definitions.forM (scope.linkDefinition document)
  scope.documents.forM fun document => document.definitions.forM (scope.linkIfConstant document)
  let linking ← get
  scope.linkDefaults linking.pending

end Scope

/-- The schema that some documents declare together. Nothing is kept of a run that fails but its
first error. -/
def link (documents : List Document) : Except LinkError Schema := do
  let scope ← Scope.ofDocuments documents
  let ((), linking) ← scope.linkAll.run {}
  .ok linking.schema

end SchemaCodec
