import SchemaCodec.Schema.Scope

/-!
# Linking of types and services

Definitions are linked one after another into a growing schema. A typedef is linked when it is met
or when another definition names it directly, so a typedef that leads back to itself without a
container in between is found; inside containers names suffice. Defaults are put aside until all
types are known.
-/

namespace SchemaCodec

/-- A default that still has to be converted and the field that it belongs to. Defaults wait because
the types that they speak of, and the constants that they name, may be declared further on. -/
structure PendingDefault where
  document : Document
  /-- The struct, exception or union that has the field. -/
  owner : String
  /-- The service and the method, where the field is an argument. -/
  method : Option (String × String)
  id : Int16
  name : String
  type : DataType
  literal : Literal
  span : Span

/-- What is linked so far: the schema as it grows, and the defaults that wait for the last pass. -/
structure Linking where
  schema : Schema := {}
  /-- In the order in which the fields were met. -/
  pending : List PendingDefault := []

/-- A step of linking, which stops at the first error. -/
abbrev LinkM := StateT Linking (Except LinkError)

namespace Linking

/-- Stop with an error. The state is lost with it, so an error never leaves half a schema. -/
def fail (error : LinkError) : LinkM α := fun _ => .error error

/-- Stop with an error if a condition holds. -/
def failIf (condition : Prop) [Decidable condition] (error : LinkError) : LinkM Unit :=
  if condition then fail error else pure ()

/-- A step that needs no more than the documents. -/
def given (outcome : Except LinkError α) : LinkM α := fun linking =>
  outcome.map fun result => (result, linking)

/-- The schema so far. -/
def schema? : LinkM Schema := fun linking => .ok (linking.schema, linking)

/-- Add a declared type, unless its name is taken. -/
def insertType (document : Document) (span : Span) (declared : TypeDeclaration) : LinkM Unit :=
  fun linking =>
    match linking.schema.insertType? declared with
    | some schema => .ok ((), { linking with schema })
    | none => .error (document.errorAt span (.duplicateDefinition declared.name))

/-- Add a service, unless its name is taken. -/
def insertService (document : Document) (span : Span) (declared : Service) : LinkM Unit :=
  fun linking =>
    match linking.schema.insertService? declared with
    | some schema => .ok ((), { linking with schema })
    | none => .error (document.errorAt span (.duplicateDefinition declared.name))

/-- Add a constant, unless its name is taken. -/
def insertConstant (document : Document) (span : Span) (declared : Constant) : LinkM Unit :=
  fun linking =>
    match linking.schema.insertConstant? declared with
    | some schema => .ok ((), { linking with schema })
    | none => .error (document.errorAt span (.duplicateDefinition declared.name))

/-- Put a default aside. -/
def putAside (pending : PendingDefault) : LinkM Unit := fun linking =>
  .ok ((), { linking with pending := linking.pending ++ [pending] })

end Linking

open Linking

namespace Scope

/-- Link a typedef and, before it, the typedefs that it leads to directly; `above` are those that
lead to it, outermost first. No chain of distinct typedefs is longer than the bound. -/
def linkTypedef (scope : Scope) :
    Nat → List String → Document → TypedefDefinition → LinkM Unit
  | bound, above, document, definition => do
    let name := document.qualified definition.name
    let schema ← schema?
    match schema.declaration? name with
    | some (.typedef _) => pure ()
    | some _ => fail (document.errorAt definition.span (.duplicateDefinition name))
    | none =>
      if name ∈ above then
        let cycle := above.dropWhile (· ≠ name) ++ [name]
        fail (document.errorAt definition.span (.illegalTypedefCycle cycle))
      else
        match bound with
        | 0 => fail (document.errorAt definition.span (.illegalTypedefCycle (above ++ [name])))
        | bound + 1 =>
          let target ← given (scope.resolve document definition.target)
          match scope.directTypedef? document definition.target with
          | some (home, next) => scope.linkTypedef bound (above ++ [name]) home next
          | none => pure ()
          insertType document definition.span (.typedef ⟨name, target⟩)

/-- The type that a reference stands for, once the typedef that it names directly is linked. -/
def linkReference (scope : Scope) (document : Document) (reference : TypeReference) :
    LinkM DataType := do
  let type ← given (scope.resolve document reference)
  match scope.directTypedef? document reference with
  | some (home, definition) => scope.linkTypedef (scope.size + 1) [] home definition
  | none => pure ()
  pure type

/-- The members of an enum, each with its own number or the one after the member before it, starting
from zero. Names must differ and numbers must fit into 32 bits; two members may share a number. -/
def linkMembers (document : Document) (enum : String) :
    List MemberDefinition → List String → Int → Except LinkError (List EnumMember)
  | [], _, _ => .ok []
  | member :: rest, names, next =>
    let number := member.number.getD next
    if member.name ∈ names then
      .error (document.errorAt member.span (.duplicateEnumMember enum member.name))
    else if number < -0x80000000 ∨ 0x80000000 ≤ number then
      .error (document.errorAt member.span
        (.invalidConstant (enum ++ "." ++ member.name) (.memberOutOfRange number)))
    else do
      let linked ← linkMembers document enum rest (member.name :: names) (number + 1)
      .ok (⟨member.name, Int32.ofInt number⟩ :: linked)

/-- Link an enum. It names no other type, so nothing else is linked on the way. -/
def linkEnum (document : Document) (definition : EnumDefinition) : LinkM Unit := do
  let name := document.qualified definition.name
  let members ← given (linkMembers document name definition.members [] 0)
  insertType document definition.span (.enum ⟨name, members⟩)

/-- How the fields of one owner are linked. -/
structure FieldOwner where
  name : String
  /-- Whether every field becomes optional, whatever it says. -/
  allOptional : Bool
  /-- Whether defaults count. -/
  hasDefaults : Bool
  method : Option (String × String) := none

/-- Put the default of a field aside, where the owner's defaults count. -/
def putDefaultAside (document : Document) (owner : FieldOwner) (field : FieldDefinition)
    (type : DataType) : LinkM Unit :=
  match field.default with
  | some literal =>
    if owner.hasDefaults then
      putAside
        { document, owner := owner.name, method := owner.method, id := field.id,
          name := field.name, type, literal, span := field.span }
    else pure ()
  | none => pure ()

/-- The fields of an owner, ids and names once each. The id is checked before the name, and both
before the type, so the first fault in this order is the one that is reported. Whether a field keeps
its requiredness and whether its default counts is a matter of its owner. -/
def linkFields (scope : Scope) (document : Document) (owner : FieldOwner) :
    List FieldDefinition → List Int16 → List String → LinkM (List Field)
  | [], _, _ => pure []
  | field :: rest, ids, names => do
    failIf (field.id ∈ ids)
      (document.errorAt field.span (.duplicateFieldId owner.name field.id))
    failIf (field.name ∈ names)
      (document.errorAt field.span (.duplicateDefinition (owner.name ++ "." ++ field.name)))
    let type ← scope.linkReference document field.type
    putDefaultAside document owner field type
    let linked ← scope.linkFields document owner rest (field.id :: ids) (field.name :: names)
    let requiredness := if owner.allOptional then .optional else field.requiredness
    pure ({ id := field.id, name := field.name, type, requiredness } :: linked)

/-- Link a struct or an exception. Typedefs that its fields name directly are linked first, and it
is registered last. -/
def linkStruct (scope : Scope) (document : Document) (isException : Bool)
    (definition : StructDefinition) : LinkM Unit := do
  let name := document.qualified definition.name
  let owner := { name, allOptional := false, hasDefaults := true }
  let fields ← scope.linkFields document owner definition.fields [] []
  insertType document definition.span (.struct ⟨name, isException, fields⟩)

/-- Link a union. Its fields are all optional: one of them is set. -/
def linkUnion (scope : Scope) (document : Document) (definition : StructDefinition) :
    LinkM Unit := do
  let name := document.qualified definition.name
  let owner := { name, allOptional := true, hasDefaults := true }
  let fields ← scope.linkFields document owner definition.fields [] []
  insertType document definition.span (.union ⟨name, fields⟩)

/-- The service that a service extends, by its qualified name. It must be the name of a service;
that the parent chain ends is not asked for here. -/
def linkParent (scope : Scope) (document : Document) (definition : ServiceDefinition) :
    Except LinkError (Option String) :=
  match definition.parent with
  | none => .ok none
  | some parent => do
    let (home, found) ← scope.lookupAt document parent definition.span
    match found with
    | .service above => .ok (some (home.qualified above.name))
    | _ => .error (document.errorAt definition.span (.invalidReference parent .service))

/-- The fields of a result struct: what is returned, under the id zero, and what is thrown. -/
def resultFields (returns : Option DataType) (throws : List Field) : List Field :=
  match returns with
  | none => throws
  | some type => { id := 0, name := "success", type, requiredness := .optional } :: throws

/-- The type that a method returns, if it returns anything. -/
def linkReturns (scope : Scope) (document : Document) :
    Option TypeReference → LinkM (Option DataType)
  | some reference => do
    let type ← scope.linkReference document reference
    pure (some type)
  | none => pure none

/-- Link the struct in which the result of a method travels. A oneway method has none. -/
def linkResult (document : Document) (function : FunctionDefinition) (result : String)
    (returns : Option DataType) (throws : List Field) : LinkM (Option String) :=
  if function.oneway then pure none
  else do
    failIf (returns.isSome ∧ throws.any (·.id = 0))
      (document.errorAt function.span (.duplicateFieldId result 0))
    insertType document function.span (.struct ⟨result, false, resultFields returns throws⟩)
    pure (some result)

/-- Link a method, with the structs in which its arguments and its result travel. Arguments come
first, then what is returned and what is thrown; the two structs are registered when all of these
are linked, the one of the arguments before the other one. -/
def linkMethod (scope : Scope) (document : Document) (service : String)
    (function : FunctionDefinition) : LinkM Method := do
  let name := service ++ "." ++ function.name
  let argumentsStruct := name ++ "_args"
  let result := name ++ "_result"
  let argumentsOwner :=
    { name := argumentsStruct, allOptional := false, hasDefaults := true,
      method := some (service, function.name) }
  let arguments ← scope.linkFields document argumentsOwner function.arguments [] []
  let returns ← scope.linkReturns document function.returns
  given (function.throws.forM (scope.checkException document))
  let throwsOwner := { name := result, allOptional := true, hasDefaults := false }
  let throws ← scope.linkFields document throwsOwner function.throws [] []
  failIf (function.oneway ∧ (returns.isSome ∨ throws ≠ []))
    (document.errorAt function.span (.invalidReference name .voidMethod))
  insertType document function.span (.struct ⟨argumentsStruct, false, arguments⟩)
  let resultStruct ← linkResult document function result returns throws
  pure
    { name := function.name, arguments, returns, throws, oneway := function.oneway,
      argumentsStruct, resultStruct }

/-- The methods of a service, names once each. Only the service itself is looked at: a method may
have the name of one of the parent, and then stands in front of it. -/
def linkMethods (scope : Scope) (document : Document) (service : String) :
    List FunctionDefinition → List String → LinkM (List Method)
  | [], _ => pure []
  | function :: rest, names => do
    failIf (function.name ∈ names)
      (document.errorAt function.span (.duplicateDefinition (service ++ "." ++ function.name)))
    let method ← scope.linkMethod document service function
    let methods ← scope.linkMethods document service rest (function.name :: names)
    pure (method :: methods)

/-- Link a service: what it extends, then its methods in order. It is registered behind the structs
of all its methods. -/
def linkService (scope : Scope) (document : Document) (definition : ServiceDefinition) :
    LinkM Unit := do
  let name := document.qualified definition.name
  let parent ← given (scope.linkParent document definition)
  let methods ← scope.linkMethods document name definition.functions []
  insertService document definition.span { name, parent, methods }

/-- Link a type or service; constants wait until all of these are known. A typedef starts a trail of
its own, with a bound that no chain of distinct typedefs exceeds. -/
def linkDefinition (scope : Scope) (document : Document) : Definition → LinkM Unit
  | .constant _ => pure ()
  | .typedef definition => scope.linkTypedef (scope.size + 1) [] document definition
  | .enum definition => linkEnum document definition
  | .struct definition => scope.linkStruct document false definition
  | .union definition => scope.linkUnion document definition
  | .exception definition => scope.linkStruct document true definition
  | .service definition => scope.linkService document definition

end Scope

end SchemaCodec
