import SchemaCodec.Schema.DataType
import SchemaCodec.Value.Order

/-!
# Declarations of a linked schema

Every name in a declaration is qualified and every default is a typed value. Fields stay in the
order in which they were declared, which is also the order in which they are written.
-/

namespace SchemaCodec

/-- How strongly a struct insists on a field. Where it is left open, the field may be missing from a
value, but a default that it declares is filled in. -/
inductive Requiredness where
  | required | optional | unspecified
deriving DecidableEq, Repr, Inhabited

/-- The word for a requiredness in a listing. -/
def Requiredness.display : Requiredness → String
  | required => "Required"
  | optional => "Optional"
  | unspecified => "Default"

/-- A field of a struct, exception, union, argument list or throws list. -/
structure Field where
  id : Int16
  name : String
  type : DataType
  requiredness : Requiredness
  default : Option Value := none
deriving BEq, Inhabited

/-- The first field with an id, among some fields. -/
def fieldById? (fields : List Field) (id : Int16) : Option Field := fields.find? (·.id = id)

/-- A field that is found by its id is there, and has that id. -/
theorem mem_of_fieldById? {fields : List Field} {id : Int16} {found : Field}
    (isFound : fieldById? fields id = some found) : found ∈ fields ∧ found.id = id :=
  ⟨List.mem_of_find?_eq_some isFound, by simpa using List.find?_some isFound⟩

/-- The first field with a name, among some fields. -/
def fieldByName? (fields : List Field) (name : String) : Option Field :=
  fields.find? (·.name = name)

/-- A struct or an exception: a struct that methods may throw. -/
structure StructType where
  name : String
  isException : Bool
  fields : List Field
deriving BEq, Inhabited

/-- A union: exactly one of its fields is set. -/
structure UnionType where
  name : String
  fields : List Field
deriving BEq, Inhabited

/-- A named number of an enum. The name is what a value is labelled with. -/
structure EnumMember where
  name : String
  number : Int32
deriving DecidableEq, Repr

/-- An enum: several members may share a number, and the first of them gives its name to a value. -/
structure EnumType where
  name : String
  members : List EnumMember
deriving DecidableEq, Repr, Inhabited

/-- The first member with a number; later ones are further names for it. -/
def EnumType.memberByNumber? (declared : EnumType) (number : Int32) : Option EnumMember :=
  declared.members.find? (·.number = number)

/-- The member with a name. -/
def EnumType.memberByName? (declared : EnumType) (name : String) : Option EnumMember :=
  declared.members.find? (·.name = name)

/-- A further name for a type. -/
structure TypedefType where
  name : String
  target : DataType
deriving DecidableEq, Repr, Inhabited

/-- A declared type. An exception is a struct that may be thrown, and a typedef is declared like any
other type. -/
inductive TypeDeclaration where
  | struct (declared : StructType)
  | union (declared : UnionType)
  | enum (declared : EnumType)
  | typedef (declared : TypedefType)
deriving BEq, Inhabited

namespace TypeDeclaration

/-- The qualified name of a declared type. -/
def name : TypeDeclaration → String
  | struct declared => declared.name
  | union declared => declared.name
  | enum declared => declared.name
  | typedef declared => declared.name

/-- The type that refers to a declaration. -/
def type : TypeDeclaration → DataType
  | struct declared => .struct declared.name
  | union declared => .union declared.name
  | enum declared => .enum declared.name
  | typedef declared => .typedef declared.name

/-- The word for a declaration's kind. -/
def kindName : TypeDeclaration → String
  | struct declared => if declared.isException then "exception" else "struct"
  | union _ => "union"
  | enum _ => "enum"
  | typedef _ => "typedef"

/-- The fields of a struct, exception or union. -/
def fields? : TypeDeclaration → Option (List Field)
  | struct declared => some declared.fields
  | union declared => some declared.fields
  | enum _ | typedef _ => none

end TypeDeclaration

/-- A method of a service. Its arguments and its result travel as structs of their own. -/
structure Method where
  name : String
  arguments : List Field
  /-- Absent for a method that returns nothing. -/
  returns : Option DataType
  /-- The declared exceptions, as fields of the result struct. -/
  throws : List Field
  oneway : Bool
  argumentsStruct : String
  /-- Absent for a oneway method. -/
  resultStruct : Option String
deriving BEq, Inhabited

/-- A service, with the service that it extends. -/
structure Service where
  name : String
  parent : Option String
  methods : List Method
deriving BEq, Inhabited

/-- The method that a service declares itself under a name. -/
def Service.method? (service : Service) (name : String) : Option Method :=
  service.methods.find? (·.name = name)

/-- A named value of a declared type. -/
structure Constant where
  name : String
  type : DataType
  value : Value
deriving BEq, Inhabited

end SchemaCodec
