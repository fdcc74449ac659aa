import SchemaCodec.Document.Basic

/-!
# What a document may hold at a place

When a document breaks off, the error names what could have stood at the furthest place reached. The
names are listed in a fixed order, each of them once.
-/

namespace SchemaCodec

/-- A part of a document that has a name in error messages, in the order of these names. -/
inductive Expectation where
  | endOfInput | identifier | declaredName
  | includeKeyword | cppIncludeKeyword | namespaceKeyword | constKeyword | typedefKeyword
  | enumKeyword | structKeyword | unionKeyword | exceptionKeyword | serviceKeyword | extendsKeyword
  | throwsKeyword | onewayKeyword | voidKeyword | requiredness | baseType
  | document | includeLine | cppIncludeLine | namespaceLine | namespaceScope
  | constant | typedef | enum | enumMember | struct | union | exception | service
  | function | functionType | throwsClause | field | fieldId
  | fieldType | mapType | setType | listType
  | literal | doubleLiteral | intLiteral | listLiteral | mapLiteral | mapEntry | textLiteral
  | annotations | annotationItem
deriving DecidableEq, Repr

namespace Expectation

/-- The word for a part. -/
def name : Expectation → String
  | endOfInput => "EOI"
  | identifier => "identifier"
  | declaredName => "decl_name"
  | includeKeyword => "kw_include"
  | cppIncludeKeyword => "kw_cpp_include"
  | namespaceKeyword => "kw_namespace"
  | constKeyword => "kw_const"
  | typedefKeyword => "kw_typedef"
  | enumKeyword => "kw_enum"
  | structKeyword => "kw_struct"
  | unionKeyword => "kw_union"
  | exceptionKeyword => "kw_exception"
  | serviceKeyword => "kw_service"
  | extendsKeyword => "kw_extends"
  | throwsKeyword => "kw_throws"
  | onewayKeyword => "oneway"
  | voidKeyword => "void_type"
  | requiredness => "requiredness"
  | baseType => "base_type"
  | document => "document"
  | includeLine => "include"
  | cppIncludeLine => "cpp_include"
  | namespaceLine => "namespace"
  | namespaceScope => "namespace_scope"
  | constant => "const_def"
  | typedef => "typedef_def"
  | enum => "enum_def"
  | enumMember => "enum_member"
  | struct => "struct_def"
  | union => "union_def"
  | exception => "exception_def"
  | service => "service_def"
  | function => "function"
  | functionType => "function_type"
  | throwsClause => "throws_clause"
  | field => "field"
  | fieldId => "field_id"
  | fieldType => "field_type"
  | mapType => "map_type"
  | setType => "set_type"
  | listType => "list_type"
  | literal => "const_value"
  | doubleLiteral => "double_constant"
  | intLiteral => "int_constant"
  | listLiteral => "const_list"
  | mapLiteral => "const_map"
  | mapEntry => "const_entry"
  | textLiteral => "literal"
  | annotations => "annotations"
  | annotationItem => "annotation"

/-- All parts, in the order of their names in a message. -/
def all : List Expectation :=
  [endOfInput, identifier, declaredName,
    includeKeyword, cppIncludeKeyword, namespaceKeyword, constKeyword, typedefKeyword, enumKeyword,
    structKeyword, unionKeyword, exceptionKeyword, serviceKeyword, extendsKeyword, throwsKeyword,
    onewayKeyword, voidKeyword, requiredness, baseType,
    document, includeLine, cppIncludeLine, namespaceLine, namespaceScope,
    constant, typedef, enum, enumMember, struct, union, exception, service,
    function, functionType, throwsClause, field, fieldId,
    fieldType, mapType, setType, listType,
    literal, doubleLiteral, intLiteral, listLiteral, mapLiteral, mapEntry, textLiteral,
    annotations, annotationItem]

/-- An enumeration in words, with a comma before the last of three or more. -/
def enumerate : List String → String
  | [] => ""
  | [only] => only
  | [first, second] => first ++ " or " ++ second
  | words => ", ".intercalate words.dropLast ++ ", or " ++ words.getLastD ""

/-- The message that names some parts. -/
def message (expected : List Expectation) : String :=
  "expected " ++ enumerate ((all.filter (· ∈ expected)).map name)

end Expectation

/-- Why a document is refused. -/
inductive ParseFault where
  /-- Nothing of what could stand at the place does. -/
  | unexpected (expected : List Expectation)
  | integerOutOfRange
  | fieldIdOutOfRange (text : String)
deriving DecidableEq, Repr

/-- The text of a fault. -/
def ParseFault.message : ParseFault → String
  | unexpected expected => Expectation.message expected
  | integerOutOfRange => "integer out of range"
  | fieldIdOutOfRange text => "field id " ++ text ++ " does not fit in i16"

/-- A fault and its place. -/
structure ParseError where
  path : String
  span : Span
  fault : ParseFault
deriving DecidableEq, Repr

/-- The text of an error, its place in front. -/
def ParseError.display (error : ParseError) : String :=
  error.path ++ ":" ++ error.span.display ++ ": " ++ error.fault.message

end SchemaCodec
