import SchemaCodec.Schema.Rendering

/-!
# A schema in text

The listing shows every type, service and constant of a schema on lines of its own, in link order.
-/

namespace SchemaCodec

namespace TypeDeclaration

/-- The heading of a struct, exception or union. -/
def heading (kind name : String) (fields : List Field) : String :=
  kind ++ " " ++ name ++ " (" ++ toString fields.length ++ " fields)"

/-- The line of a field in a struct or exception. -/
def structLine (field : Field) : String :=
  "  " ++ toString field.id.toInt ++ ": " ++ field.requiredness.display ++ " " ++
    field.type.display ++ " " ++ field.name

/-- The line of a field in a union. -/
def unionLine (field : Field) : String :=
  "  " ++ toString field.id.toInt ++ ": " ++ field.type.display ++ " " ++ field.name

/-- The lines of a type. -/
def listing (declared : TypeDeclaration) : List String :=
  match declared with
  | .struct found =>
    heading declared.kindName found.name found.fields :: found.fields.map structLine
  | .union found =>
    heading declared.kindName found.name found.fields :: found.fields.map unionLine
  | .enum found =>
    let members := found.members.map fun member =>
      member.name ++ "=" ++ toString member.number.toInt
    ["enum " ++ found.name ++ " \x7b" ++ ", ".intercalate members ++ "\x7d"]
  | .typedef found => ["typedef " ++ found.name ++ " = " ++ found.target.display]

end TypeDeclaration

/-- The line of a method. -/
def Method.line (method : Method) : String :=
  let returns := (method.returns.map DataType.display).getD "void"
  "  " ++ (if method.oneway then "oneway " else "") ++ returns ++ " " ++ method.name ++ "(" ++
    toString method.arguments.length ++ " args)"

/-- The lines of a service. -/
def Service.listing (service : Service) : List String :=
  let parent :=
    match service.parent with
    | some parent => " extends " ++ parent
    | none => ""
  ("service " ++ service.name ++ parent) :: service.methods.map Method.line

namespace Schema

/-- The line of a constant. -/
def constantLine (schema : Schema) (constant : Constant) : String :=
  "const " ++ constant.type.display ++ " " ++ constant.name ++ " = " ++
    schema.format constant.value constant.type

/-- The lines of a schema. -/
def listing (schema : Schema) : List String :=
  schema.types.flatMap TypeDeclaration.listing ++ schema.services.flatMap Service.listing ++
    schema.constants.map schema.constantLine

/-- How many documents and declarations were linked. -/
def tally (schema : Schema) (documents : Nat) : String :=
  "linked " ++ toString documents ++ " file(s): " ++ toString schema.types.length ++ " type(s), " ++
    toString schema.services.length ++ " service(s), " ++ toString schema.constants.length ++
    " constant(s)"

end Schema

end SchemaCodec
