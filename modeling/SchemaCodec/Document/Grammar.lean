import SchemaCodec.Document.Lexer

/-!
# The grammar of documents

Each parser reads one part of a document, spaces and comments between its words left out. Fields
without an id are numbered downwards from minus one within their list. `Document.parse` reads a
whole document and reports either the furthest place at which it breaks off or the first number that
does not fit.
-/

namespace SchemaCodec.Grammar

open SchemaCodec.Parser

/-- Spaces and comments between the words of a part. -/
def spaces : Parser Unit := (take Lexer.spaces).andThen fun _ => give ()

/-- A further word or part, behind the spaces in front of it. -/
def next (parser : Parser α) : Parser α := spaces.andThen fun _ => parser

/-- A part that may be missing, behind the spaces in front of it. -/
def nextOptional (parser : Parser α) : Parser (Option α) := next (optional parser)

/-- A part that may stand there any number of times. -/
def repeated (parser : Parser α) : Parser (List α) := many spaces parser

/-- A mark or word that error messages do not name. -/
def mark (text : String) : Parser Unit := (take (Lexer.exactly text)).andThen fun _ => give ()

/-- A keyword. It ends where the word ends, so a longer name that starts like it is none. -/
def keyword (name : Expectation) (text : String) : Parser Unit :=
  (token name (Lexer.keyword text)).andThen fun _ => give ()

/-- A name that refers to something. It may be qualified, and dots are characters of it like others.
-/
def identifier : Parser String := token .identifier Lexer.identifier

/-- A name that is declared. It has no dots, and none may follow it, unlike a name that refers to
something. -/
def declaredName : Parser String := token .declaredName Lexer.declaredName

/-- A text in quotes, its escapes resolved. The quotes are not part of the content. -/
def textLiteral : Parser String := do
  let text ← token .textLiteral Lexer.textLiteral
  pure (contentOfLiteral text)

/-- A comma or semicolon, which may be missing. -/
def separator : Parser Unit := do
  let _ ← optional (mark "," <|> mark ";")

/-- Parts between two marks, any number of them. Separators are left to the parts. -/
def enclosed (opening closing : String) (parser : Parser α) : Parser (List α) := do
  mark opening
  let parts ← next (repeated parser)
  next (mark closing)
  pure parts

/-- Something behind an equals sign, which may be missing. -/
def assigned (parser : Parser α) : Parser (Option α) :=
  optional do
    mark "="
    next parser

/-- An annotation. -/
def annotationItem : Parser Annotation :=
  part .annotationItem do
    let name ← identifier
    let value ← next (assigned textLiteral)
    pure { name, value }

/-- Annotations in parentheses, each with a separator behind it or none. -/
def annotations : Parser (List Annotation) :=
  part .annotations <| enclosed "(" ")" do
    let found ← annotationItem
    next separator
    pure found

/-- Annotations that may be missing, behind the spaces in front of them. -/
def nextAnnotations : Parser (List Annotation) := do
  let found ← nextOptional annotations
  pure (found.getD [])

/-- The words for base types, with their types. -/
def baseTypes : List (String × BaseType) :=
  [("bool", .bool), ("byte", .byte), ("i8", .byte), ("i16", .i16), ("i32", .i32), ("i64", .i64),
    ("double", .double), ("string", .string), ("binary", .binary)]

/-- A base type. Its word is recognised as a whole, so a name that starts with it is a declared
type. -/
def baseType : Parser TypeReference := do
  let word ← token .baseType (Lexer.keywordOf (baseTypes.map (·.1)))
  match baseTypes.find? (·.1 = word) with
  | some (_, type) => pure (.base type)
  | none => fail

/-- A remark on the container class of some language, without a meaning here. -/
def containerClass : Parser Unit := do
  mark "cpp_type"
  let _ ← next textLiteral

/-- A declared type. The place of its name is kept, for errors about it. -/
def namedType : Parser TypeReference := do
  let span ← here
  let name ← identifier
  pure (.named name span)

/-- A map of types read by a parser. -/
def mapType (inner : Parser TypeReference) : Parser TypeReference :=
  part .mapType do
    mark "map"
    let _ ← nextOptional containerClass
    next (mark "<")
    let key ← next inner
    next (mark ",")
    let value ← next inner
    next (mark ">")
    pure (.map key value)

/-- A set of a type read by a parser. -/
def setType (inner : Parser TypeReference) : Parser TypeReference :=
  part .setType do
    mark "set"
    let _ ← nextOptional containerClass
    next (mark "<")
    let element ← next inner
    next (mark ">")
    pure (.set element)

/-- A list of a type read by a parser. -/
def listType (inner : Parser TypeReference) : Parser TypeReference :=
  part .listType do
    mark "list"
    next (mark "<")
    let element ← next inner
    next (mark ">")
    let _ ← nextOptional containerClass
    pure (.list element)

/-- A type, nested at most that deep. The kinds are tried in order, and a name comes last, since
words for types look like names. -/
def typeWithin : Nat → Parser TypeReference
  | 0 => fail
  | depth + 1 =>
    part .fieldType do
      let inner := typeWithin depth
      let type ← baseType <|> mapType inner <|> setType inner <|> listType inner <|> namedType
      let _ ← nextAnnotations
      pure type

/-- A type. Each nesting takes a character at least. -/
def type : Parser TypeReference := do
  let bound ← left
  typeWithin (bound + 1)

/-- An integer. One that does not fit is noted and read as zero. -/
def intLiteral : Parser Int := do
  let span ← here
  let text ← token .intLiteral Lexer.intLiteral
  match intOfLiteral? text with
  | some number => pure number
  | none =>
    note span .integerOutOfRange
    pure 0

/-- A number with a point, an exponent or both. -/
def doubleLiteral : Parser Double := do
  let text ← token .doubleLiteral Lexer.doubleLiteral
  pure (decimalOfLiteral text).toDouble

/-- A list of literals read by a parser. -/
def listLiteral (inner : Parser Literal) : Parser Literal := do
  let items ← part .listLiteral <| enclosed "[" "]" do
    let item ← inner
    next separator
    pure item
  pure (.list items)

/-- An entry of a map of literals read by a parser. -/
def mapEntry (inner : Parser Literal) : Parser (Literal × Literal) :=
  part .mapEntry do
    let key ← inner
    next (mark ":")
    let value ← next inner
    pure (key, value)

/-- A map of literals read by a parser. -/
def mapLiteral (inner : Parser Literal) : Parser Literal := do
  let entries ← part .mapLiteral <| enclosed "\x7b" "\x7d" do
    let entry ← mapEntry inner
    next separator
    pure entry
  pure (.map entries)

/-- A literal, nested at most that deep. Numbers with a point are tried before integers, which are
fronts of them. -/
def literalWithin : Nat → Parser Literal
  | 0 => fail
  | depth + 1 =>
    part .literal do
      let inner := literalWithin depth
      (do let number ← doubleLiteral; pure (.double number)) <|>
        (do let number ← intLiteral; pure (.int number)) <|>
        (do let text ← textLiteral; pure (.text text)) <|>
        listLiteral inner <|> mapLiteral inner <|>
        (do let name ← identifier; pure (.identifier name))

/-- A literal. Each nesting takes a character at least. -/
def literal : Parser Literal := do
  let bound ← left
  literalWithin (bound + 1)

/-- The id of a field and its colon. An id that does not fit is noted and read as zero. -/
def fieldId : Parser Int16 := do
  let span ← here
  let text ← token .fieldId Lexer.fieldId
  next (mark ":")
  match fieldIdOfLiteral? text with
  | some id => pure id
  | none =>
    note span (.fieldIdOutOfRange text)
    pure 0

/-- How strongly a struct insists on a field. -/
def requiredness : Parser Requiredness := do
  let word ← token .requiredness (Lexer.keywordOf ["required", "optional"])
  pure (if word = "required" then .required else .optional)

/-- A field, with the id that is written in front of it if there is one. -/
def field : Parser (Option Int16 × FieldDefinition) :=
  part .field do
    let span ← here
    let id ← optional fieldId
    let requiredness ← nextOptional requiredness
    let type ← next type
    let name ← next declaredName
    let default ← next (assigned literal)
    let annotations ← nextAnnotations
    next separator
    pure (id,
      { id := id.getD 0, name, requiredness := requiredness.getD .unspecified, type, default,
        annotations, span })

/-- Number the fields that have no id downwards from a given one; the least id is used again and
again. -/
def numbered : Int16 → List (Option Int16 × FieldDefinition) → List FieldDefinition
  | _, [] => []
  | free, (some id, field) :: rest => { field with id } :: numbered free rest
  | free, (none, field) :: rest =>
    { field with id := free } :: numbered (if free = Int16.minValue then free else free - 1) rest

/-- Fields between two marks, all of them with an id. -/
def fields (opening closing : String) : Parser (List FieldDefinition) := do
  let found ← enclosed opening closing field
  pure (numbered (-1) found)

/-- A constant. -/
def constant : Parser Definition :=
  part .constant do
    let span ← here
    keyword .constKeyword "const"
    let type ← next type
    let name ← next declaredName
    next (mark "=")
    let value ← next literal
    pure (.constant { name, type, value, span })

/-- A typedef. -/
def typedef : Parser Definition :=
  part .typedef do
    let span ← here
    keyword .typedefKeyword "typedef"
    let target ← next type
    let name ← next declaredName
    let annotations ← nextAnnotations
    pure (.typedef { name, target, annotations, span })

/-- A member of an enum, with its number if it has one and the separator that may follow it. -/
def enumMember : Parser MemberDefinition :=
  part .enumMember do
    let span ← here
    let name ← declaredName
    let number ← next (assigned intLiteral)
    let _ ← nextAnnotations
    next separator
    pure { name, number, span }

/-- An enum. -/
def enum : Parser Definition :=
  part .enum do
    let span ← here
    keyword .enumKeyword "enum"
    let name ← next declaredName
    let members ← next (enclosed "\x7b" "\x7d" enumMember)
    let annotations ← nextAnnotations
    pure (.enum { name, members, annotations, span })

/-- What structs, unions and exceptions have in common, behind a keyword. -/
def structBody (name keywordName : Expectation) (text : String) : Parser StructDefinition :=
  part name do
    let span ← here
    keyword keywordName text
    let name ← next declaredName
    let fields ← next (fields "\x7b" "\x7d")
    let annotations ← nextAnnotations
    pure { name, fields, annotations, span }

/-- What a method returns: nothing, or a type. -/
def functionType : Parser (Option TypeReference) :=
  part .functionType <|
    (do keyword .voidKeyword "void"; pure none) <|> (do let found ← type; pure (some found))

/-- The exceptions that a method may throw, written like arguments. -/
def throwsClause : Parser (List FieldDefinition) :=
  part .throwsClause do
    keyword .throwsKeyword "throws"
    next (fields "(" ")")

/-- A method. -/
def function : Parser FunctionDefinition :=
  part .function do
    let span ← here
    let oneway ← optional (keyword .onewayKeyword "oneway")
    let returns ← next functionType
    let name ← next declaredName
    let arguments ← next (fields "(" ")")
    let throws ← nextOptional throwsClause
    let annotations ← nextAnnotations
    next separator
    pure
      { name, oneway := oneway.isSome, returns, arguments, throws := throws.getD [], annotations,
        span }

/-- A service. -/
def service : Parser Definition :=
  part .service do
    let span ← here
    keyword .serviceKeyword "service"
    let name ← next declaredName
    let parent ← nextOptional do
      keyword .extendsKeyword "extends"
      next identifier
    let functions ← next (enclosed "\x7b" "\x7d" function)
    let annotations ← nextAnnotations
    pure (.service { name, parent, functions, annotations, span })

/-- A declaration, with the separator that may follow it. -/
def definition : Parser Definition := do
  let found ← constant <|> typedef <|> enum <|>
    (.struct <$> structBody .struct .structKeyword "struct") <|>
    (.union <$> structBody .union .unionKeyword "union") <|>
    (.exception <$> structBody .exception .exceptionKeyword "exception") <|>
    service
  next separator
  pure found

/-- A line or declaration of a document. -/
inductive Item where
  | includeLine (found : Include)
  | cppIncludeLine
  | namespaceLine (found : Namespace)
  | definition (found : Definition)

/-- A reference to another document. -/
def includeLine : Parser Item :=
  part .includeLine do
    let span ← here
    keyword .includeKeyword "include"
    let path ← next textLiteral
    pure (.includeLine { path, span })

/-- An include for generated code, without a meaning here. -/
def cppIncludeLine : Parser Item :=
  part .cppIncludeLine do
    keyword .cppIncludeKeyword "cpp_include"
    let _ ← next textLiteral
    pure .cppIncludeLine

/-- A name for generated code, kept with the language that it is meant for. -/
def namespaceLine : Parser Item :=
  part .namespaceLine do
    keyword .namespaceKeyword "namespace"
    let scope ← next (token .namespaceScope Lexer.namespaceScope)
    let name ← next identifier
    pure (.namespaceLine { scope, name })

/-- A line or declaration of a document. -/
def item : Parser Item :=
  includeLine <|> cppIncludeLine <|> namespaceLine <|>
    (do let found ← definition; pure (.definition found))

/-- A whole document: lines and declarations up to the end of the text. -/
def document : Parser (List Item) :=
  part .document do
    let items ← next (repeated item)
    let _ ← next (token .endOfInput fun chars => if chars.isEmpty then some ([], []) else none)
    pure items

end SchemaCodec.Grammar

namespace SchemaCodec.Document

/-- A document with one more line or declaration. -/
def add (document : Document) : Grammar.Item → Document
  | .includeLine found => { document with includes := document.includes ++ [found] }
  | .cppIncludeLine => document
  | .namespaceLine found => { document with namespaces := document.namespaces ++ [found] }
  | .definition found => { document with definitions := document.definitions ++ [found] }

/-- The document of the items that were read, or the reason for which they are refused: the furthest
place at which the text breaks off, or the first number that does not fit. -/
def ofOutcome (path : String) :
    Option (List Grammar.Item × Cursor) × Attempts → Except ParseError Document
  | (none, attempts) => .error ⟨path, attempts.span, .unexpected attempts.expected⟩
  | (some (items, cursor), _) =>
    match cursor.misfit with
    | some (span, fault) => .error ⟨path, span, fault⟩
    | none => .ok (items.foldl add (.ofPath path))

/-- The document that a text spells, under a path that also gives the module. -/
def parse (path text : String) : Except ParseError Document :=
  ofOutcome path (Grammar.document { rest := text.toList } {})

end SchemaCodec.Document
