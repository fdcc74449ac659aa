import SchemaCodec.Document.Reach
import SchemaCodec.Schema.LinkError

/-!
# Names in scope

A document sees its own names and those of the documents that it includes, directly or not. A local
name comes first; a qualified name is looked up in the document of its module; any other name is
taken from the nearest include that has it.
-/

namespace SchemaCodec

/-- An error at a place of a document. -/
def Document.errorAt (document : Document) (span : Span) (fault : LinkFault) : LinkError :=
  ⟨document.path, span, fault⟩

/-- A name of a document, qualified with its module. -/
def Document.qualified (document : Document) (name : String) : String :=
  document.module ++ "." ++ name

/-- The definition of a name in a document. -/
def Document.definition? (document : Document) (name : String) : Option Definition :=
  document.definitions.find? (·.name = name)

/-- The part of a name before its first dot, and the part behind it. -/
def splitFirstDot? (name : String) : Option (String × String) :=
  match name.toList.dropWhile (· ≠ '.') with
  | [] => none
  | _ :: rest => some (String.ofList (name.toList.takeWhile (· ≠ '.')), String.ofList rest)

/-- The part of a name before its last dot, and the part behind it. -/
def splitLastDot? (name : String) : Option (String × String) :=
  match name.toList.reverse.dropWhile (· ≠ '.') with
  | [] => none
  | _ :: front =>
    some (String.ofList front.reverse,
      String.ofList (name.toList.reverse.takeWhile (· ≠ '.')).reverse)

/-- The documents that are linked together, each path once. -/
structure Scope where
  documents : List Document

namespace Scope

/-- The document of a path. -/
def document? (scope : Scope) (path : String) : Option Document :=
  scope.documents.find? (·.path = path)

/-- The paths that the document of a path includes. -/
def includesOf (scope : Scope) (path : String) : List String :=
  match scope.document? path with
  | some document => document.includes.map (·.path)
  | none => []

/-- The documents that a document includes, directly or not, nearest first and without itself. -/
def visibleFrom (scope : Scope) (document : Document) : List Document :=
  (reach (scope.documents.map (·.path)) scope.includesOf document.path).filterMap scope.document?

/-- The first of some documents that defines a name, with the definition. -/
def firstDefinition? (documents : List Document) (name : String) : Option (Document × Definition) :=
  documents.findSome? fun document => (document.definition? name).map fun found => (document, found)

/-- What a name refers to in a document. Its own definitions come first, even for a name with a dot,
which a definition that was not read from a text may have. Any other name with a dot is split at the
first one and looked up in the visible documents of that module, itself among them; a plain name is
taken from the nearest visible document that defines it. -/
def lookup (scope : Scope) (document : Document) (name : String) : Option (Document × Definition) :=
  match document.definition? name with
  | some found => some (document, found)
  | none =>
    match splitFirstDot? name with
    | some (module, rest) =>
      firstDefinition? ((document :: scope.visibleFrom document).filter (·.module = module)) rest
    | none => firstDefinition? (scope.visibleFrom document) name

/-- What a name at a place refers to. -/
def lookupAt (scope : Scope) (document : Document) (name : String) (span : Span) :
    Except LinkError (Document × Definition) :=
  match scope.lookup document name with
  | some found => .ok found
  | none => .error (document.errorAt span (.unresolvedReference name))

/-- The type that a reference stands for. Typedefs are not followed, so the type keeps the names
that were written, each qualified with the module of the document that defines it. Constants and
services are no types. -/
def resolve (scope : Scope) (document : Document) : TypeReference → Except LinkError DataType
  | .base type => .ok type.type
  | .list element => do
    let element ← scope.resolve document element
    .ok (.list element)
  | .set element => do
    let element ← scope.resolve document element
    .ok (.set element)
  | .map key value => do
    let key ← scope.resolve document key
    let value ← scope.resolve document value
    .ok (.map key value)
  | .named name span => do
    let (home, found) ← scope.lookupAt document name span
    match found with
    | .struct definition | .exception definition => .ok (.struct (home.qualified definition.name))
    | .union definition => .ok (.union (home.qualified definition.name))
    | .enum definition => .ok (.enum (home.qualified definition.name))
    | .typedef definition => .ok (.typedef (home.qualified definition.name))
    | .service _ | .constant _ => .error (document.errorAt span (.invalidReference name .type))

/-- The typedef that a reference names directly, outside of any container. -/
def directTypedef? (scope : Scope) (document : Document) :
    TypeReference → Option (Document × TypedefDefinition)
  | .named name _ =>
    match scope.lookup document name with
    | some (home, .typedef definition) => some (home, definition)
    | _ => none
  | _ => none

/-- The number of definitions in all documents, which bounds every chain of distinct definitions. -/
def size (scope : Scope) : Nat := (scope.documents.flatMap (·.definitions)).length

/-- Follow typedefs from a reference, at most that many, until it names an exception. Errors stand
in the document in which the reference is written and at its place. -/
def checkExceptionWithin (scope : Scope) (origin : Document) (span : Span) (start : TypeReference) :
    Nat → Document → TypeReference → Except LinkError Unit
  | 0, _, _ => .error (origin.errorAt span (.invalidReference start.rawText .exception))
  | steps + 1, document, reference =>
    match reference with
    | .named name _ => do
      let (home, found) ← scope.lookupAt document name span
      match found with
      | .exception _ => .ok ()
      | .typedef definition =>
        scope.checkExceptionWithin origin span start steps home definition.target
      | _ => .error (origin.errorAt span (.invalidReference name .exception))
    | other => .error (origin.errorAt span (.invalidReference other.rawText .exception))

/-- What a method throws must be an exception, possibly behind typedefs. -/
def checkException (scope : Scope) (document : Document) (field : FieldDefinition) :
    Except LinkError Unit :=
  scope.checkExceptionWithin document field.span field.type (scope.size + 1) document field.type

/-- The first document for each path. Later ones of the same path are dropped without being looked
at. -/
def firstOfPaths : List Document → List String → List Document
  | [], _ => []
  | document :: rest, seen =>
    if document.path ∈ seen then firstOfPaths rest seen
    else document :: firstOfPaths rest (document.path :: seen)

/-- Each document has a module of its own and includes documents that are there. The documents are
gone through in order, so of two with one module the later one is at fault, and of two faults in one
document the module comes first. -/
def checkIncludes (documents : List Document) :
    List Document → List (String × String) → Except LinkError Unit
  | [], _ => .ok ()
  | document :: rest, modules => do
    match modules.find? (·.1 = document.module) with
    | some (module, path) => .error (document.errorAt {} (.duplicateModule module path))
    | none => .ok ()
    match document.includes.find? fun found => documents.all (·.path ≠ found.path) with
    | some found => .error (document.errorAt found.span (.unresolvedInclude found.path))
    | none => .ok ()
    checkIncludes documents rest ((document.module, document.path) :: modules)

/-- A document defines each name once, whatever the kinds. The later of two definitions is at fault.
-/
def checkDefinitions (document : Document) : List Definition → List String → Except LinkError Unit
  | [], _ => .ok ()
  | definition :: rest, names =>
    if definition.name ∈ names then
      .error (document.errorAt definition.span (.duplicateDefinition definition.name))
    else checkDefinitions document rest (definition.name :: names)

/-- The scope of some documents: later documents with the path of an earlier one are left out, and
the others must agree on modules, includes and names. -/
def ofDocuments (documents : List Document) : Except LinkError Scope := do
  let documents := firstOfPaths documents []
  checkIncludes documents documents []
  documents.forM fun document => checkDefinitions document document.definitions []
  .ok ⟨documents⟩

end Scope

end SchemaCodec
