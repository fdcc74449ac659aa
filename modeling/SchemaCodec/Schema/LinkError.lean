import SchemaCodec.Document.RawText
import SchemaCodec.Schema.Validation

/-!
# Why documents do not link

Every error stands at a place in one document. An error about a constant says which constant or
default it concerns and what is wrong with its literal.
-/

namespace SchemaCodec

/-- What a reference should have referred to, where it refers to something else. -/
inductive Referent where
  | type | service | exception | constant
  /-- A method without a result, where none may be returned. -/
  | voidMethod
deriving DecidableEq, Repr

/-- The words for a referent. -/
def Referent.display : Referent → String
  | type => "a type"
  | service => "a service"
  | exception => "an exception"
  | constant => "a constant"
  | voidMethod => "a void method without throws when oneway"

/-- What is wrong with a constant or default. -/
inductive ConstantFault where
  | memberOutOfRange (number : Int)
  | cyclic
  | lookup (error : LookupError)
  | outOfRange (number : Int) (type : DataType)
  | unfit (error : ValueError)
  | unknownField (name : String)
  | fieldKey (key : Literal)
  | wrongForm (literal : Literal) (type : DataType)

/-- The text of a fault. -/
def ConstantFault.message : ConstantFault → String
  | memberOutOfRange number => "enum value " ++ toString number ++ " does not fit in i32"
  | cyclic => "cyclic constant reference"
  | lookup error => error.message
  | outOfRange number type => toString number ++ " is out of range for " ++ type.display
  | unfit error => error.message
  | unknownField name => "no field named " ++ name
  | fieldKey key => "struct literal keys must be field names, found " ++ key.rawText
  | wrongForm literal type => literal.rawText ++ " is not a valid " ++ type.display

/-- Why documents do not link. -/
inductive LinkFault where
  | unresolvedReference (name : String)
  | duplicateDefinition (name : String)
  /-- Two documents claim one module. -/
  | duplicateModule (module path : String)
  /-- Typedefs that lead back to the first of them. -/
  | illegalTypedefCycle (cycle : List String)
  | duplicateFieldId (owner : String) (id : Int16)
  | duplicateEnumMember (enum member : String)
  | unresolvedInclude (path : String)
  | invalidReference (name : String) (expected : Referent)
  | invalidConstant (name : String) (fault : ConstantFault)

/-- The text of a fault. -/
def LinkFault.message : LinkFault → String
  | unresolvedReference name => "unresolved reference to " ++ name
  | duplicateDefinition name => "duplicate definition of " ++ name
  | duplicateModule module path =>
    "duplicate definition of module " ++ module ++ " (also defined by " ++ path ++ ")"
  | illegalTypedefCycle cycle => "illegal typedef cycle: " ++ " -> ".intercalate cycle
  | duplicateFieldId owner id => "duplicate field id " ++ toString id.toInt ++ " in " ++ owner
  | duplicateEnumMember enum member => "duplicate member " ++ member ++ " in enum " ++ enum
  | unresolvedInclude path => "included file " ++ path ++ " was not provided"
  | invalidReference name expected => name ++ " must refer to " ++ expected.display
  | invalidConstant name fault => "invalid constant " ++ name ++ ": " ++ fault.message

/-- A fault and its place. -/
structure LinkError where
  path : String
  span : Span
  fault : LinkFault

/-- The text of an error, its place in front. -/
def LinkError.message (error : LinkError) : String :=
  error.path ++ ":" ++ error.span.display ++ ": " ++ error.fault.message

end SchemaCodec
