import SchemaCodec.Schema.Declaration
import SchemaCodec.Schema.NameIndex

/-!
# Linked schemas

A schema holds its types, services and constants in the order in which they were linked, and finds
each of them by its qualified name through an index of positions. A name that is taken is never
given away again. Typedef chains and chains of extended services are followed for at most as many
steps as there are declarations.
-/

namespace SchemaCodec

/-- Why a lookup in a schema fails. A name may be unknown, or known as a declaration of another kind
than the one that is asked for. -/
inductive LookupError where
  | notFound (name : String)
  | wrongKind (name expected actual : String)
  | serviceNotFound (name : String)
  | methodNotFound (service method : String)
  | constantNotFound (name : String)
deriving DecidableEq, Repr

/-- The text of a failed lookup. -/
def LookupError.message : LookupError → String
  | notFound name => "type not found: " ++ name
  | wrongKind name expected actual => name ++ " is a " ++ actual ++ ", not a " ++ expected
  | serviceNotFound name => "service not found: " ++ name
  | methodNotFound service method => "method " ++ method ++ " not found on service " ++ service
  | constantNotFound name => "constant not found: " ++ name

/-- Declared types, services and constants, each list in link order and with the positions of the
names in it. -/
structure Schema where
  types : List TypeDeclaration := []
  typePositions : NameIndex := {}
  services : List Service := []
  servicePositions : NameIndex := {}
  constants : List Constant := []
  constantPositions : NameIndex := {}
deriving BEq, Inhabited

namespace Schema

/-- The type declared under a name. -/
def declaration? (schema : Schema) (name : String) : Option TypeDeclaration :=
  schema.typePositions.lookup? schema.types name

/-- The service declared under a name. -/
def service? (schema : Schema) (name : String) : Option Service :=
  schema.servicePositions.lookup? schema.services name

/-- The constant declared under a name. -/
def constant? (schema : Schema) (name : String) : Option Constant :=
  schema.constantPositions.lookup? schema.constants name

/-- The type that refers to the declaration of a name. -/
def resolve (schema : Schema) (name : String) : Except LookupError DataType :=
  match schema.declaration? name with
  | some declared => .ok declared.type
  | none => .error (.notFound name)

/-- Why a name does not refer to a declaration of the expected kind. -/
def kindError (schema : Schema) (name expected : String) : LookupError :=
  match schema.declaration? name with
  | some declared => .wrongKind name expected declared.kindName
  | none => .notFound name

/-- The struct or exception declared under a name. -/
def structType (schema : Schema) (name : String) : Except LookupError StructType :=
  match schema.declaration? name with
  | some (.struct declared) => .ok declared
  | _ => .error (schema.kindError name "struct")

/-- The union declared under a name. A struct of that name is one of the wrong kind. -/
def unionType (schema : Schema) (name : String) : Except LookupError UnionType :=
  match schema.declaration? name with
  | some (.union declared) => .ok declared
  | _ => .error (schema.kindError name "union")

/-- The enum declared under a name. Typedefs are not followed. -/
def enumType (schema : Schema) (name : String) : Except LookupError EnumType :=
  match schema.declaration? name with
  | some (.enum declared) => .ok declared
  | _ => .error (schema.kindError name "enum")

/-- The type that a typedef stands for, one step on. It may name a typedef again. -/
def typedefTarget (schema : Schema) (name : String) : Except LookupError DataType :=
  match schema.declaration? name with
  | some (.typedef declared) => .ok declared.target
  | _ => .error (schema.kindError name "typedef")

/-- Follow at most that many typedefs, then report the type from which the chain started. -/
def canonicalWithin (schema : Schema) (start : DataType) :
    Nat → DataType → Except LookupError DataType
  | 0, _ => .error (.notFound start.display)
  | steps + 1, .typedef name => do
    let target ← schema.typedefTarget name
    schema.canonicalWithin start steps target
  | _ + 1, type => .ok type

/-- The type that is no typedef at the end of a chain of typedefs. Element types stay as they are. A
chain without repetition has at most as many typedefs as the schema has types. -/
def canonical (schema : Schema) (type : DataType) : Except LookupError DataType :=
  schema.canonicalWithin type (schema.types.length + 1) type

/-- The service of a name. -/
def service (schema : Schema) (name : String) : Except LookupError Service :=
  match schema.service? name with
  | some declared => .ok declared
  | none => .error (.serviceNotFound name)

/-- Look for a method on a service and on at most that many services above it. -/
def findMethodWithin (schema : Schema) (failure : LookupError) (method : String) :
    Nat → Service → Except LookupError (Service × Method)
  | 0, _ => .error failure
  | steps + 1, current =>
    match current.method? method, current.parent with
    | some declared, _ => .ok (current, declared)
    | none, none => .error failure
    | none, some parent => do
      let above ← schema.service parent
      schema.findMethodWithin failure method steps above

/-- The nearest declaration of a method on the chain of services that a service extends, with the
service that declares it. A chain may be cyclic, so it is followed once around at most. -/
def findMethod (schema : Schema) (service method : String) :
    Except LookupError (Service × Method) := do
  let start ← schema.service service
  schema.findMethodWithin (.methodNotFound service method) method (schema.services.length + 1) start

/-- The value of a constant. -/
def constantValue (schema : Schema) (name : String) : Except LookupError Value :=
  match schema.constant? name with
  | some declared => .ok declared.value
  | none => .error (.constantNotFound name)

/-- A schema with one more type at the end, entered under its name. -/
def addType (schema : Schema) (declared : TypeDeclaration) : Schema :=
  { schema with
    types := schema.types ++ [declared]
    typePositions := schema.typePositions.add declared.name schema.types.length }

/-- A schema with one more service at the end, entered under its name. -/
def addService (schema : Schema) (declared : Service) : Schema :=
  { schema with
    services := schema.services ++ [declared]
    servicePositions := schema.servicePositions.add declared.name schema.services.length }

/-- A schema with one more constant at the end, entered under its name. -/
def addConstant (schema : Schema) (declared : Constant) : Schema :=
  { schema with
    constants := schema.constants ++ [declared]
    constantPositions := schema.constantPositions.add declared.name schema.constants.length }

/-- Add a type, unless its name is entered already. -/
def insertType? (schema : Schema) (declared : TypeDeclaration) : Option Schema :=
  if schema.typePositions.contains declared.name then none else some (schema.addType declared)

/-- Add a service, unless its name is entered already. -/
def insertService? (schema : Schema) (declared : Service) : Option Schema :=
  if schema.servicePositions.contains declared.name then none
  else some (schema.addService declared)

/-- Add a constant, unless its name is entered already. -/
def insertConstant? (schema : Schema) (declared : Constant) : Option Schema :=
  if schema.constantPositions.contains declared.name then none
  else some (schema.addConstant declared)

end Schema

end SchemaCodec
