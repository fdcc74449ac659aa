import SchemaCodec.Schema.Declaration

/-!
# Documents as written

A document is one file of declarations before linking: references are names and constants are
literals. Includes name other documents by their paths.
-/

namespace SchemaCodec

/-- A place in a document, counted from one. What was not read from a text has the place zero, which
no text has. -/
structure Span where
  line : Nat := 0
  column : Nat := 0
deriving DecidableEq, Repr, Inhabited

/-- The text of a place. -/
def Span.display (span : Span) : String := toString span.line ++ ":" ++ toString span.column

/-- The types that need no declaration. -/
inductive BaseType where
  | bool | byte | i16 | i32 | i64 | double | string | binary
deriving DecidableEq, Repr

/-- The data type of a base type. -/
def BaseType.type : BaseType → DataType
  | bool => .bool
  | byte => .byte
  | i16 => .i16
  | i32 => .i32
  | i64 => .i64
  | double => .double
  | string => .string
  | binary => .binary

/-- A type as written. -/
inductive TypeReference where
  | base (type : BaseType)
  | list (element : TypeReference)
  | set (element : TypeReference)
  | map (key value : TypeReference)
  /-- A declared type, possibly qualified with a module. -/
  | named (name : String) (span : Span)
deriving DecidableEq, Repr, Inhabited

/-- A constant as written. -/
inductive Literal where
  | int (number : Int)
  | double (number : Double)
  | text (text : String)
  /-- A truth value, a constant or a member of an enum. -/
  | identifier (name : String)
  | list (items : List Literal)
  | map (entries : List (Literal × Literal))
deriving Inhabited

/-- A remark on a declaration. It has no meaning here. -/
structure Annotation where
  name : String
  value : Option String
deriving DecidableEq, Repr

/-- A field as written. An id that was left out has been filled in already, so every field has one.
-/
structure FieldDefinition where
  id : Int16
  name : String
  requiredness : Requiredness := .unspecified
  type : TypeReference
  default : Option Literal := none
  annotations : List Annotation := []
  span : Span := {}
deriving Inhabited

/-- A named value, with the type that it is declared with and the literal that spells it. -/
structure ConstantDefinition where
  name : String
  type : TypeReference
  value : Literal
  span : Span := {}
deriving Inhabited

/-- A further name for a type. The target may itself be a typedef, in this document or in another
one. -/
structure TypedefDefinition where
  name : String
  target : TypeReference
  annotations : List Annotation := []
  span : Span := {}
deriving Inhabited

/-- A member of an enum. Without a number it has the one after the member before it. -/
structure MemberDefinition where
  name : String
  number : Option Int := none
  span : Span := {}
deriving DecidableEq, Repr, Inhabited

/-- An enum as written. Members keep their order, since one without a number goes by the member
before it. -/
structure EnumDefinition where
  name : String
  members : List MemberDefinition := []
  annotations : List Annotation := []
  span : Span := {}
deriving Inhabited

/-- A struct, union or exception as written. All three are declared alike; which one it is is said
by the definition that holds it. -/
structure StructDefinition where
  name : String
  fields : List FieldDefinition := []
  annotations : List Annotation := []
  span : Span := {}
deriving Inhabited

/-- A method of a service as written. Whether a oneway method may return or throw is left to
linking. -/
structure FunctionDefinition where
  name : String
  oneway : Bool := false
  /-- Absent where nothing is returned. -/
  returns : Option TypeReference := none
  arguments : List FieldDefinition := []
  throws : List FieldDefinition := []
  annotations : List Annotation := []
  span : Span := {}
deriving Inhabited

/-- A service as written. -/
structure ServiceDefinition where
  name : String
  parent : Option String := none
  functions : List FunctionDefinition := []
  annotations : List Annotation := []
  span : Span := {}
deriving Inhabited

/-- A top-level declaration. Each has a name of its own kind, and one document may not give a name
twice, whatever the kinds. -/
inductive Definition where
  | constant (definition : ConstantDefinition)
  | typedef (definition : TypedefDefinition)
  | enum (definition : EnumDefinition)
  | struct (definition : StructDefinition)
  | union (definition : StructDefinition)
  | exception (definition : StructDefinition)
  | service (definition : ServiceDefinition)
deriving Inhabited

namespace Definition

/-- The name that a declaration introduces. -/
def name : Definition → String
  | constant definition => definition.name
  | typedef definition => definition.name
  | enum definition => definition.name
  | struct definition | union definition | exception definition => definition.name
  | service definition => definition.name

/-- Where a declaration starts. -/
def span : Definition → Span
  | constant definition => definition.span
  | typedef definition => definition.span
  | enum definition => definition.span
  | struct definition | union definition | exception definition => definition.span
  | service definition => definition.span

end Definition

/-- A reference to another document. -/
structure Include where
  path : String
  span : Span := {}
deriving DecidableEq, Repr, Inhabited

/-- A name for generated code in some language. It has no meaning here. -/
structure Namespace where
  scope : String
  name : String
deriving DecidableEq, Repr

/-- One document: the lines and declarations of a file, each kind in the order in which it was
written. -/
structure Document where
  /-- What other documents include it by. -/
  path : String
  /-- What its names are qualified with. -/
  module : String
  includes : List Include := []
  namespaces : List Namespace := []
  definitions : List Definition := []
deriving Inhabited

/-- The module of a path: its last component up to the first dot, unless the dot comes first. -/
def moduleOfPath (path : String) : String :=
  let component := (path.toList.reverse.takeWhile fun char => char ≠ '/' ∧ char ≠ '\\').reverse
  match component.takeWhile (· ≠ '.') with
  | [] => String.ofList component
  | stem => String.ofList stem

/-- An empty document, its module taken from its path. -/
def Document.ofPath (path : String) : Document := { path, module := moduleOfPath path }

end SchemaCodec
