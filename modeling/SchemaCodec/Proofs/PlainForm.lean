import SchemaCodec.Proofs.WordLexing
import SchemaCodec.Document.Basic

/-!
# The plain form of a document

Every document that the grammar has words for can be written as a list of words, in more than one
way: a text may stand in either quote, a separator is a comma or a semicolon, and a field may leave
out its id where it would get that very id. A separator stands behind every field, member, method,
annotation, list item and map entry. Lines and declarations may stand in any order among each other
as long as those of one kind keep theirs.
-/

namespace SchemaCodec

/-! ## Documents that can be written -/

/-- The words for a base type. -/
def BaseType.words : BaseType → List String
  | bool => ["bool"]
  | byte => ["byte", "i8"]
  | i16 => ["i16"]
  | i32 => ["i32"]
  | i64 => ["i64"]
  | double => ["double"]
  | string => ["string"]
  | binary => ["binary"]

namespace TypeReference

/-- Every name in a type may refer to something and is no word for a base type. -/
def Writable : TypeReference → Prop
  | base _ => True
  | list element | set element => element.Writable
  | map key value => key.Writable ∧ value.Writable
  | named name _ => isIdentifier name = true ∧ ∀ type : BaseType, name ∉ type.words

/-- A type is not the name of a declared type that is a reserved word. -/
def Avoids (reserved : List String) : TypeReference → Prop
  | named name _ => name ∉ reserved
  | _ => True

end TypeReference

/-- A number whose magnitude fits into 63 bits, whatever its sign. The least number of 64 bits is
not one of them. -/
def FitsLiteral (number : Int) : Prop := -0x8000000000000000 < number ∧ number < 0x8000000000000000

/-- A literal has no numbers with a point, its integers fit, and its identifiers are read as such.
The magnitude of an integer is what has to fit, so the least number of 64 bits is not among them. -/
inductive Literal.Writable : Literal → Prop
  | int {number : Int} (fits : FitsLiteral number) : Writable (.int number)
  | text {content : String} : Writable (.text content)
  | identifier {name : String} (isName : isIdentifier name = true) : Writable (.identifier name)
  | list {items : List Literal} (all : ∀ item ∈ items, Writable item) : Writable (.list items)
  | map {entries : List (Literal × Literal)}
      (keys : ∀ entry ∈ entries, Writable entry.1) (values : ∀ entry ∈ entries, Writable entry.2) :
      Writable (.map entries)

/-- Every annotation has a name that may refer to something. -/
def WritableAnnotations (annotations : List Annotation) : Prop :=
  ∀ note ∈ annotations, isIdentifier note.name = true

/-- A field has a name that may be declared, and its type, its default and its annotations can be
written. A field without requiredness has no type whose name would be taken for one. -/
structure FieldDefinition.Writable (field : FieldDefinition) : Prop where
  name : isDeclaredName field.name = true
  type : field.type.Writable
  reserved : field.requiredness = .unspecified → field.type.Avoids ["required", "optional"]
  default : ∀ literal ∈ field.default, literal.Writable
  annotations : WritableAnnotations field.annotations

/-- A constant has a name that may be declared, and its type and its value can be written. -/
structure ConstantDefinition.Writable (constant : ConstantDefinition) : Prop where
  name : isDeclaredName constant.name = true
  type : constant.type.Writable
  value : constant.value.Writable

/-- A typedef has a name that may be declared, and its target can be written. -/
structure TypedefDefinition.Writable (typedef : TypedefDefinition) : Prop where
  name : isDeclaredName typedef.name = true
  target : typedef.target.Writable
  annotations : WritableAnnotations typedef.annotations

/-- A member has a name that may be declared, and a number that fits if it has one. -/
structure MemberDefinition.Writable (member : MemberDefinition) : Prop where
  name : isDeclaredName member.name = true
  number : ∀ number ∈ member.number, FitsLiteral number

/-- An enum has a name that may be declared, and so have its members. -/
structure EnumDefinition.Writable (enum : EnumDefinition) : Prop where
  name : isDeclaredName enum.name = true
  members : ∀ member ∈ enum.members, member.Writable
  annotations : WritableAnnotations enum.annotations

/-- A struct, union or exception has a name that may be declared, and its fields can be written. -/
structure StructDefinition.Writable (struct : StructDefinition) : Prop where
  name : isDeclaredName struct.name = true
  fields : ∀ field ∈ struct.fields, field.Writable
  annotations : WritableAnnotations struct.annotations

/-- A method returns no type whose name would be taken for another word in its place. -/
structure FunctionDefinition.Writable (function : FunctionDefinition) : Prop where
  name : isDeclaredName function.name = true
  returns : ∀ type ∈ function.returns, type.Writable ∧ type.Avoids ["void"]
  reserved : function.oneway = false → ∀ type ∈ function.returns, type.Avoids ["oneway"]
  arguments : ∀ field ∈ function.arguments, field.Writable
  throws : ∀ field ∈ function.throws, field.Writable
  annotations : WritableAnnotations function.annotations

/-- A service has a name that may be declared, its methods can be written, and the name of its
parent may refer to something. -/
structure ServiceDefinition.Writable (service : ServiceDefinition) : Prop where
  name : isDeclaredName service.name = true
  parent : ∀ parent ∈ service.parent, isIdentifier parent = true
  functions : ∀ function ∈ service.functions, function.Writable
  annotations : WritableAnnotations service.annotations

/-- The parts of a declaration can be written. What this asks of each kind of declaration is said
with that kind. -/
def Definition.Writable : Definition → Prop
  | constant definition => definition.Writable
  | typedef definition => definition.Writable
  | enum definition => definition.Writable
  | struct definition | union definition | exception definition => definition.Writable
  | service definition => definition.Writable

/-- The parts of a document can be written. Includes ask for nothing, since any text can stand in
quotes. -/
structure Document.Writable (document : Document) : Prop where
  namespaces : ∀ target ∈ document.namespaces,
    isScopeText target.scope = true ∧ isIdentifier target.name = true
  definitions : ∀ definition ∈ document.definitions, definition.Writable

/-! ## The words of the parts of a document -/

/-- A mark that ends a part. -/
def Mark.IsSeparator (punctuation : Mark) : Prop := punctuation = .comma ∨ punctuation = .semicolon

/-- Items one behind another, each in words of its own and with a separator behind it. -/
inductive Listed (written : α → List Word → Prop) : List α → List Word → Prop
  | nil : Listed written [] []
  | cons {item : α} {items : List α} {front rest : List Word} {separator : Mark}
      (first : written item front) (separates : separator.IsSeparator)
      (more : Listed written items rest) :
      Listed written (item :: items) (front ++ .mark separator :: rest)

/-- Something behind an equals sign, or nothing. -/
inductive Assigned (written : α → List Word → Prop) : Option α → List Word → Prop
  | absent : Assigned written none []
  | present {value : α} {words : List Word} (body : written value words) :
      Assigned written (some value) (.mark .equals :: words)

/-- A text in quotes of either kind. -/
inductive WrittenText : String → List Word → Prop
  | intro (quote : Quote) (content : String) : WrittenText content [.quoted quote content]

/-- An integer in decimal digits. -/
inductive WrittenNumber : Int → List Word → Prop
  | intro (number : Int) : WrittenNumber number [.number number]

/-- An annotation is its name, with a text in quotes behind an equals sign if it has one. -/
inductive Annotation.Written : Annotation → List Word → Prop
  | intro {note : Annotation} {valueWords : List Word}
      (proper : isNameText note.name = true)
      (value : Assigned WrittenText note.value valueWords) :
      Written note (.name note.name proper :: valueWords)

/-- Annotations in parentheses, which may be missing where there are none. -/
inductive WrittenAnnotations : List Annotation → List Word → Prop
  | absent : WrittenAnnotations [] []
  | present {annotations : List Annotation} {words : List Word}
      (items : Listed Annotation.Written annotations words) :
      WrittenAnnotations annotations (.mark .openParen :: (words ++ [.mark .closeParen]))

/-- A type is one of the words for a base type, the name of a declared type, or the word for a
container with its element types in angle brackets.

A remark on the container class is never written. -/
inductive TypeReference.Written : TypeReference → List Word → Prop
  | base {type : BaseType} {word : String} (listed : word ∈ type.words)
      (proper : isNameText word = true) : Written (.base type) [.name word proper]
  | list {element : TypeReference} {words : List Word} (inner : Written element words) :
      Written (.list element)
        (.name "list" :: .mark .openAngle :: (words ++ [.mark .closeAngle]))
  | set {element : TypeReference} {words : List Word} (inner : Written element words) :
      Written (.set element) (.name "set" :: .mark .openAngle :: (words ++ [.mark .closeAngle]))
  | map {key value : TypeReference} {keyWords valueWords : List Word} (first : Written key keyWords)
      (second : Written value valueWords) :
      Written (.map key value) (.name "map" :: .mark .openAngle ::
        (keyWords ++ .mark .comma :: (valueWords ++ [.mark .closeAngle])))
  | named {name : String} {span : Span} (proper : isNameText name = true) :
      Written (.named name span) [.name name proper]

/-- A key and a value with a colon between them. -/
inductive WrittenEntry (written : Literal → List Word → Prop) :
    Literal × Literal → List Word → Prop
  | intro {key value : Literal} {keyWords valueWords : List Word} (first : written key keyWords)
      (second : written value valueWords) :
      WrittenEntry written (key, value) (keyWords ++ .mark .colon :: valueWords)

/-- A literal is an integer, a text in quotes or a name, or else its items in brackets or its
entries in braces, each with a separator behind it.

Numbers with a point or an exponent have no words here. -/
inductive Literal.Written : Literal → List Word → Prop
  | int {number : Int} {words : List Word} (body : WrittenNumber number words) :
      Written (.int number) words
  | text {content : String} {words : List Word} (body : WrittenText content words) :
      Written (.text content) words
  | identifier {name : String} (proper : isNameText name = true) :
      Written (.identifier name) [.name name proper]
  | list {items : List Literal} {words : List Word}
      (inner : Listed Written items words) :
      Written (.list items) (.mark .openBracket :: (words ++ [.mark .closeBracket]))
  | map {entries : List (Literal × Literal)} {words : List Word}
      (inner : Listed (WrittenEntry Written) entries words) :
      Written (.map entries) (.mark .openBrace :: (words ++ [.mark .closeBrace]))

/-- Requiredness is one word, or none where it is left open. -/
inductive Requiredness.Written : Requiredness → List Word → Prop
  | unspecified : Written .unspecified []
  | required : Written .required [.name "required"]
  | optional : Written .optional [.name "optional"]

/-- A field without its id and its separator, which depend on the fields around it. -/
inductive FieldDefinition.Written : FieldDefinition → List Word → Prop
  | intro {field : FieldDefinition} {requirednessWords typeWords defaultWords noteWords : List Word}
      (requiredness : field.requiredness.Written requirednessWords)
      (type : field.type.Written typeWords) (proper : isNameText field.name = true)
      (default : Assigned Literal.Written field.default defaultWords)
      (annotations : WrittenAnnotations field.annotations noteWords) :
      Written field (requirednessWords ++
        (typeWords ++ .name field.name proper :: (defaultWords ++ noteWords)))

/-- Fields of which so many before them have left out their ids. The next one that does so is
numbered below those. -/
inductive WrittenFields : Nat → List FieldDefinition → List Word → Prop
  | nil {count : Nat} : WrittenFields count [] []
  | given {count : Nat} {field : FieldDefinition} {fields : List FieldDefinition}
      {words rest : List Word} {separator : Mark} (body : field.Written words)
      (separates : separator.IsSeparator) (more : WrittenFields count fields rest) :
      WrittenFields count (field :: fields)
        (.number field.id.toInt :: .mark .colon :: (words ++ .mark separator :: rest))
  | implied {count : Nat} {field : FieldDefinition} {fields : List FieldDefinition}
      {words rest : List Word} {separator : Mark} (numbered : field.id.toInt = -(count + 1))
      (body : field.Written words) (separates : separator.IsSeparator)
      (more : WrittenFields (count + 1) fields rest) :
      WrittenFields count (field :: fields) (words ++ .mark separator :: rest)

/-- A constant is its type, its name and its value behind an equals sign. It has no annotations. -/
inductive ConstantDefinition.Written : ConstantDefinition → List Word → Prop
  | intro {constant : ConstantDefinition} {typeWords valueWords : List Word}
      (type : constant.type.Written typeWords) (proper : isNameText constant.name = true)
      (value : constant.value.Written valueWords) :
      Written constant
        (.name "const" :: (typeWords ++ .name constant.name proper :: .mark .equals :: valueWords))

/-- A typedef is its target and its name, with its annotations behind them. -/
inductive TypedefDefinition.Written : TypedefDefinition → List Word → Prop
  | intro {typedef : TypedefDefinition} {typeWords noteWords : List Word}
      (target : typedef.target.Written typeWords) (proper : isNameText typedef.name = true)
      (annotations : WrittenAnnotations typedef.annotations noteWords) :
      Written typedef (.name "typedef" :: (typeWords ++ .name typedef.name proper :: noteWords))

/-- A member is its name, with its number behind an equals sign if it has one. -/
inductive MemberDefinition.Written : MemberDefinition → List Word → Prop
  | intro {member : MemberDefinition} {numberWords : List Word}
      (proper : isNameText member.name = true)
      (number : Assigned WrittenNumber member.number numberWords) :
      Written member (.name member.name proper :: numberWords)

/-- An enum is its name and its members in braces, with its annotations behind them. -/
inductive EnumDefinition.Written : EnumDefinition → List Word → Prop
  | intro {enum : EnumDefinition} {memberWords noteWords : List Word}
      (proper : isNameText enum.name = true)
      (members : Listed MemberDefinition.Written enum.members memberWords)
      (annotations : WrittenAnnotations enum.annotations noteWords) :
      Written enum (.name "enum" :: .name enum.name proper :: .mark .openBrace ::
        (memberWords ++ .mark .closeBrace :: noteWords))

/-- A struct, union or exception behind its keyword: its name, its fields in braces and its
annotations. The ids of fields are counted down from minus one where they are left out. -/
inductive StructDefinition.Written : StructDefinition → List Word → Prop
  | intro {struct : StructDefinition} {fieldWords noteWords : List Word}
      (proper : isNameText struct.name = true) (fields : WrittenFields 0 struct.fields fieldWords)
      (annotations : WrittenAnnotations struct.annotations noteWords) :
      Written struct (.name struct.name proper :: .mark .openBrace ::
        (fieldWords ++ .mark .closeBrace :: noteWords))

/-- What a method returns. -/
inductive WrittenReturn : Option TypeReference → List Word → Prop
  | nothing : WrittenReturn none [.name "void"]
  | type {type : TypeReference} {words : List Word} (body : type.Written words) :
      WrittenReturn (some type) words

/-- The exceptions of a method, which may be missing where there are none. -/
inductive WrittenThrows : List FieldDefinition → List Word → Prop
  | absent : WrittenThrows [] []
  | present {fields : List FieldDefinition} {words : List Word}
      (body : WrittenFields 0 fields words) :
      WrittenThrows fields
        (.name "throws" :: .mark .openParen :: (words ++ [.mark .closeParen]))

/-- A method is what it returns and its name, with its arguments in parentheses, what it throws and
its annotations behind them.

The word for a method without an answer stands in front of all that. -/
inductive FunctionDefinition.Written : FunctionDefinition → List Word → Prop
  | intro {function : FunctionDefinition}
      {returnWords argumentWords throwWords noteWords : List Word}
      (returns : WrittenReturn function.returns returnWords)
      (proper : isNameText function.name = true)
      (arguments : WrittenFields 0 function.arguments argumentWords)
      (throws : WrittenThrows function.throws throwWords)
      (annotations : WrittenAnnotations function.annotations noteWords) :
      Written function ((if function.oneway then [.name "oneway"] else []) ++
        (returnWords ++ .name function.name proper :: .mark .openParen ::
          (argumentWords ++ .mark .closeParen :: (throwWords ++ noteWords))))

/-- The service that another one extends. -/
inductive WrittenParent : Option String → List Word → Prop
  | absent : WrittenParent none []
  | present {parent : String} (proper : isNameText parent = true) :
      WrittenParent (some parent) [.name "extends", .name parent proper]

/-- A service is its name and its parent, its methods in braces and its annotations. The parent, if
there is one, stands behind a word of its own. -/
inductive ServiceDefinition.Written : ServiceDefinition → List Word → Prop
  | intro {service : ServiceDefinition} {parentWords functionWords noteWords : List Word}
      (proper : isNameText service.name = true) (parent : WrittenParent service.parent parentWords)
      (functions : Listed FunctionDefinition.Written service.functions functionWords)
      (annotations : WrittenAnnotations service.annotations noteWords) :
      Written service (.name "service" :: .name service.name proper ::
        (parentWords ++ .mark .openBrace ::
          (functionWords ++ .mark .closeBrace :: noteWords)))

/-- A declaration is the words of its kind. Structs, unions and exceptions differ in their keywords
alone. -/
inductive Definition.Written : Definition → List Word → Prop
  | constant {definition : ConstantDefinition} {words : List Word}
      (body : definition.Written words) : Written (.constant definition) words
  | typedef {definition : TypedefDefinition} {words : List Word}
      (body : definition.Written words) : Written (.typedef definition) words
  | enum {definition : EnumDefinition} {words : List Word}
      (body : definition.Written words) : Written (.enum definition) words
  | struct {definition : StructDefinition} {words : List Word}
      (body : definition.Written words) : Written (.struct definition) (.name "struct" :: words)
  | union {definition : StructDefinition} {words : List Word}
      (body : definition.Written words) : Written (.union definition) (.name "union" :: words)
  | exception {definition : StructDefinition} {words : List Word}
      (body : definition.Written words) :
      Written (.exception definition) (.name "exception" :: words)
  | service {definition : ServiceDefinition} {words : List Word}
      (body : definition.Written words) : Written (.service definition) words

/-- A separator, or nothing, as it may stand behind a declaration. -/
inductive WrittenEnd : List Word → Prop
  | absent : WrittenEnd []
  | present {separator : Mark} (separates : separator.IsSeparator) :
      WrittenEnd [.mark separator]

/-- The lines and declarations of a document. Those of different kinds may stand in any order, and a
separator may follow a declaration. -/
inductive WrittenLines : List Include → List Namespace → List Definition → List Word → Prop
  | nil : WrittenLines [] [] [] []
  | includeLine {included : Include} {includes : List Include} {namespaces : List Namespace}
      {definitions : List Definition} {pathWords rest : List Word}
      (path : WrittenText included.path pathWords)
      (more : WrittenLines includes namespaces definitions rest) :
      WrittenLines (included :: includes) namespaces definitions
        (.name "include" :: (pathWords ++ rest))
  | namespaceLine {target : Namespace} {includes : List Include} {namespaces : List Namespace}
      {definitions : List Definition} {rest : List Word}
      (scope : isScopeText target.scope = true) (proper : isNameText target.name = true)
      (more : WrittenLines includes namespaces definitions rest) :
      WrittenLines includes (target :: namespaces) definitions
        (.name "namespace" :: .scope target.scope scope :: .name target.name proper :: rest)
  | definition {definition : Definition} {includes : List Include} {namespaces : List Namespace}
      {definitions : List Definition} {words endWords rest : List Word}
      (body : definition.Written words) (ends : WrittenEnd endWords)
      (more : WrittenLines includes namespaces definitions rest) :
      WrittenLines includes namespaces (definition :: definitions) (words ++ (endWords ++ rest))

/-- The words of a document: its lines and its declarations in any order among each other, each kind
in its own order. -/
def Document.Written (document : Document) (words : List Word) : Prop :=
  WrittenLines document.includes document.namespaces document.definitions words

/-! ## Documents up to their places -/

namespace TypeReference

/-- A type with no record of where its names stand. -/
def withoutSpans : TypeReference → TypeReference
  | base type => base type
  | list element => list element.withoutSpans
  | set element => set element.withoutSpans
  | map key value => map key.withoutSpans value.withoutSpans
  | named name _ => named name {}

end TypeReference

/-- A field with no record of where it stands. -/
def FieldDefinition.withoutSpans (field : FieldDefinition) : FieldDefinition :=
  { field with type := field.type.withoutSpans, span := {} }

/-- A constant with no record of where it stands. -/
def ConstantDefinition.withoutSpans (constant : ConstantDefinition) : ConstantDefinition :=
  { constant with type := constant.type.withoutSpans, span := {} }

/-- A typedef with no record of where it stands. -/
def TypedefDefinition.withoutSpans (typedef : TypedefDefinition) : TypedefDefinition :=
  { typedef with target := typedef.target.withoutSpans, span := {} }

/-- A member with no record of where it stands. -/
def MemberDefinition.withoutSpans (member : MemberDefinition) : MemberDefinition :=
  { member with span := {} }

/-- An enum with no record of where it stands. -/
def EnumDefinition.withoutSpans (enum : EnumDefinition) : EnumDefinition :=
  { enum with members := enum.members.map (·.withoutSpans), span := {} }

/-- A struct, union or exception with no record of where it stands. -/
def StructDefinition.withoutSpans (struct : StructDefinition) : StructDefinition :=
  { struct with fields := struct.fields.map (·.withoutSpans), span := {} }

/-- A method with no record of where it stands. -/
def FunctionDefinition.withoutSpans (function : FunctionDefinition) : FunctionDefinition :=
  { function with
    returns := function.returns.map (·.withoutSpans)
    arguments := function.arguments.map (·.withoutSpans)
    throws := function.throws.map (·.withoutSpans)
    span := {} }

/-- A service with no record of where it stands. -/
def ServiceDefinition.withoutSpans (service : ServiceDefinition) : ServiceDefinition :=
  { service with functions := service.functions.map (·.withoutSpans), span := {} }

/-- A declaration with no record of where it stands. -/
def Definition.withoutSpans : Definition → Definition
  | constant definition => constant definition.withoutSpans
  | typedef definition => typedef definition.withoutSpans
  | enum definition => enum definition.withoutSpans
  | struct definition => struct definition.withoutSpans
  | union definition => union definition.withoutSpans
  | exception definition => exception definition.withoutSpans
  | service definition => service definition.withoutSpans

/-- An include with no record of where it stands. -/
def Include.withoutSpans (included : Include) : Include := { included with span := {} }

/-- A document with no record of where its parts stand. Documents are compared in this form, since
gaps between words move all that follows. -/
def Document.withoutSpans (document : Document) : Document :=
  { document with
    includes := document.includes.map (·.withoutSpans)
    definitions := document.definitions.map (·.withoutSpans) }

end SchemaCodec
