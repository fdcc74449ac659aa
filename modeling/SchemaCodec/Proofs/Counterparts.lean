import SchemaCodec.Proofs.AcceptedDocuments
import SchemaCodec.Proofs.TypedefTrails

/-!
# Counterparts of documents

The documents of a scope may have counterparts among those of another one: documents with the same
definitions, in which names refer to the counterparts of what they refer to. Then references stand
for the same types in a counterpart, what is in order is in order there, and each definition
declares the same.
-/

namespace SchemaCodec

/-- A document with its definitions in another order. -/
structure Document.Reordered (document other : Document) : Prop where
  path : other.path = document.path
  module : other.module = document.module
  includes : other.includes = document.includes
  namespaces : other.namespaces = document.namespaces
  definitions : document.definitions.Perm other.definitions

namespace Document.Reordered

variable {document other : Document}

/-- A document has its definitions in its own order. -/
theorem refl (document : Document) : document.Reordered document :=
  ⟨rfl, rfl, rfl, rfl, .refl _⟩

/-- Names are qualified in the same way. -/
theorem qualified (reordered : document.Reordered other) (name : String) :
    other.qualified name = document.qualified name :=
  congrArg (· ++ "." ++ name) reordered.module

/-- The same definitions are there. -/
theorem mem_definitions (reordered : document.Reordered other) {found : Definition} :
    found ∈ other.definitions ↔ found ∈ document.definitions :=
  reordered.definitions.mem_iff.symm

/-- The same names are defined. -/
theorem names_iff (reordered : document.Reordered other) {name : String} :
    other.Names name ↔ document.Names name := by
  simp only [Document.Names, reordered.mem_definitions]

/-- Errors are told in the same way. -/
theorem errorAt (reordered : document.Reordered other) (span : Span) (fault : LinkFault) :
    other.errorAt span fault = document.errorAt span fault :=
  congrArg (LinkError.mk · span fault) reordered.path

end Document.Reordered

/-- A default that waits, with the counterpart of its document. -/
def PendingDefault.moved (move : Document → Document) (pending : PendingDefault) : PendingDefault :=
  { pending with document := move pending.document }

/-- Additions with the counterparts of the documents of all defaults that wait. -/
def Additions.moved (move : Document → Document) (added : Additions) : Additions :=
  { added with pending := added.pending.map (·.moved move) }

namespace Scope

/-- Each document of a scope has a counterpart in another one, with the same definitions, in which a
name refers to the counterpart of what it refers to. -/
structure Counterparts (scope other : Scope) (move : Document → Document) : Prop where
  moved : ∀ {document}, document ∈ scope.documents → move document ∈ other.documents
  reordered : ∀ {document}, document ∈ scope.documents → document.Reordered (move document)
  lookup : ∀ {document}, document ∈ scope.documents → ∀ name,
    other.lookup (move document) name =
      (scope.lookup document name).map fun pair => (move pair.1, pair.2)

namespace Counterparts

/-- Each document is its own counterpart. -/
theorem refl (scope : Scope) : scope.Counterparts scope id where
  moved := id
  reordered {document} _ := .refl document
  lookup _ _ := Option.map_id'.symm

variable {scope other : Scope} {move : Document → Document} {document home : Document}

section References

variable (counterparts : scope.Counterparts other move) (member : document ∈ scope.documents)

include counterparts member

/-- Looking up a name at a place finds the counterpart of what it finds, or fails alike. -/
theorem lookupAt (name : String) (span : Span) :
    other.lookupAt (move document) name span =
      (scope.lookupAt document name span).map fun pair => (move pair.1, pair.2) := by
  rw [Scope.lookupAt, Scope.lookupAt, counterparts.lookup member,
    (counterparts.reordered member).errorAt]
  cases scope.lookup document name <;> rfl

/-- A reference stands for the same type.

Proof: by induction on the reference. A name is looked up with the same success in both documents,
and what is found stands for its qualified name, which moving keeps; where a lookup fails, both fail
at the same place. -/
theorem resolve (reference : TypeReference) :
    other.resolve (move document) reference = scope.resolve document reference := by
  induction reference with
  | base type => rfl
  | list element inductionHypothesis | set element inductionHypothesis =>
    rw [Scope.resolve, Scope.resolve, inductionHypothesis]
  | map key value keyHypothesis valueHypothesis =>
    rw [Scope.resolve, Scope.resolve, keyHypothesis, valueHypothesis]
  | named name span =>
    rw [Scope.resolve, Scope.resolve, counterparts.lookupAt member]
    cases isFound : scope.lookupAt document name span with
    | error error => rfl
    | ok pair =>
      obtain ⟨home, found⟩ := pair
      have isHome := (mem_of_lookup member (lookupAt_eq_ok.mp isFound)).1
      cases found with
      | service definition | constant definition =>
        exact congrArg Except.error ((counterparts.reordered member).errorAt _ _)
      | struct definition | exception definition | union definition | enum definition
      | typedef definition =>
        simp only [Except.map, bind, Except.bind, (counterparts.reordered isHome).qualified]

/-- A reference names the counterpart of the typedef that it names directly. -/
theorem directTypedef? (reference : TypeReference) :
    other.directTypedef? (move document) reference =
      (scope.directTypedef? document reference).map fun pair => (move pair.1, pair.2) := by
  cases reference with
  | named name span =>
    rw [Scope.directTypedef?, Scope.directTypedef?, counterparts.lookup member]
    cases scope.lookup document name with
    | none => rfl
    | some pair =>
      obtain ⟨home, found⟩ := pair
      cases found <;> rfl
  | _ => rfl

/-- A service extends the same service.

Proof: the name of the parent is looked up with the same result in both documents, and a service
that is found is told by its qualified name. -/
theorem linkParent (definition : ServiceDefinition) :
    other.linkParent (move document) definition = scope.linkParent document definition := by
  unfold Scope.linkParent
  cases definition.parent with
  | none => rfl
  | some parent =>
    simp only [counterparts.lookupAt member]
    cases isFound : scope.lookupAt document parent definition.span with
    | error error => rfl
    | ok pair =>
      obtain ⟨home, found⟩ := pair
      have isHome := (mem_of_lookup member (lookupAt_eq_ok.mp isFound)).1
      cases found with
      | service above =>
        simp only [Except.map, bind, Except.bind, (counterparts.reordered isHome).qualified]
      | _ => exact congrArg Except.error ((counterparts.reordered member).errorAt _ _)

end References

section WellFormed

variable (counterparts : scope.Counterparts other move) (orderly : scope.Orderly)
  (alsoOrderly : other.Orderly)

include counterparts orderly alsoOrderly

/-- A name in a counterpart refers to the counterpart of something that it refers to. -/
theorem exists_refers (member : document ∈ scope.documents) {name : String} {found : Definition} :
    other.Refers (move document) name home found ↔
      ∃ origin, move origin = home ∧ scope.Refers document name origin found := by
  rw [← alsoOrderly.lookup_eq_some (counterparts.moved member), counterparts.lookup member,
    Option.map_eq_some_iff]
  simp only [← orderly.lookup_eq_some member]
  constructor
  · rintro ⟨⟨origin, definition⟩, isFound, same⟩
    obtain ⟨isOrigin, rfl⟩ := Prod.mk.inj same
    exact ⟨origin, isOrigin, isFound⟩
  · rintro ⟨origin, rfl, isFound⟩
    exact ⟨(origin, found), isFound, rfl⟩

/-- References that refer to types do so in both documents. -/
theorem refersToTypes_iff (member : document ∈ scope.documents) {reference : TypeReference} :
    other.RefersToTypes (move document) reference ↔ scope.RefersToTypes document reference := by
  rw [← alsoOrderly.exists_resolve_eq_ok (counterparts.moved member), counterparts.resolve member,
    orderly.exists_resolve_eq_ok member]

/-- References that name exceptions do so in both documents. Either induction is on the typedefs
that come in between. -/
theorem namesException_iff (member : document ∈ scope.documents) {reference : TypeReference} :
    other.NamesException (move document) reference ↔ scope.NamesException document reference := by
  have exists_refers {document home : Document} (member : document ∈ scope.documents)
      {name : String} {found : Definition} : other.Refers (move document) name home found ↔
        ∃ origin, move origin = home ∧ scope.Refers document name origin found :=
    counterparts.exists_refers orderly alsoOrderly member
  constructor
  · intro names
    generalize isThere : move document = there at names
    induction names generalizing document with
    | exception refers =>
      subst isThere
      obtain ⟨origin, -, here⟩ := (exists_refers member).mp refers
      exact .exception here
    | typedef refers _ inductionHypothesis =>
      subst isThere
      obtain ⟨origin, isOrigin, here⟩ := (exists_refers member).mp refers
      exact .typedef here (inductionHypothesis (here.mem member).1 isOrigin)
  · intro names
    induction names with
    | exception refers => exact .exception ((exists_refers member).mpr ⟨_, rfl, refers⟩)
    | typedef refers _ inductionHypothesis =>
      exact .typedef ((exists_refers member).mpr ⟨_, rfl, refers⟩)
        (inductionHypothesis (refers.mem member).1)

/-- Fields are in order in both documents. -/
theorem validFields_iff (member : document ∈ scope.documents) {fields : List FieldDefinition} :
    other.ValidFields (move document) fields ↔ scope.ValidFields document fields := by
  have types (field : FieldDefinition) : other.RefersToTypes (move document) field.type ↔
      scope.RefersToTypes document field.type :=
    counterparts.refersToTypes_iff orderly alsoOrderly member
  constructor
  · intro valid
    exact ⟨valid.ids, valid.names,
      fun field isField => (types field).mp (valid.types field isField)⟩
  · intro valid
    exact ⟨valid.ids, valid.names,
      fun field isField => (types field).mpr (valid.types field isField)⟩

/-- A method is in order in both documents.

Proof: a method is in order when its arguments, its result and what it throws are, and each of these
conditions is the same in both documents. What is asked of oneway methods and of names speaks of the
method alone. -/
theorem validMethod_iff (member : document ∈ scope.documents) {function : FunctionDefinition} :
    other.ValidMethod (move document) function ↔ scope.ValidMethod document function := by
  have fields {fields : List FieldDefinition} :
      other.ValidFields (move document) fields ↔ scope.ValidFields document fields :=
    counterparts.validFields_iff orderly alsoOrderly member
  have types {reference : TypeReference} :
      other.RefersToTypes (move document) reference ↔ scope.RefersToTypes document reference :=
    counterparts.refersToTypes_iff orderly alsoOrderly member
  have exceptions {reference : TypeReference} :
      other.NamesException (move document) reference ↔ scope.NamesException document reference :=
    counterparts.namesException_iff orderly alsoOrderly member
  constructor
  · intro valid
    exact ⟨fields.mp valid.arguments, fun _ isReturned => types.mp (valid.returns _ isReturned),
      fields.mp valid.throws, fun _ isThrown => exceptions.mp (valid.exceptions _ isThrown),
      valid.silent, valid.free⟩
  · intro valid
    exact ⟨fields.mpr valid.arguments, fun _ isReturned => types.mpr (valid.returns _ isReturned),
      fields.mpr valid.throws, fun _ isThrown => exceptions.mpr (valid.exceptions _ isThrown),
      valid.silent, valid.free⟩

/-- A definition is in order in both documents.

Proof: by the form of the definition. Each condition speaks of references, which name the same kinds
of definitions in both documents, or of the definition alone, which is the same. For a service this
is said of its parent and of each method. -/
theorem validDefinition_iff (member : document ∈ scope.documents) {found : Definition} :
    other.ValidDefinition (move document) found ↔ scope.ValidDefinition document found := by
  cases found with
  | constant definition => exact Iff.rfl
  | typedef definition => exact counterparts.refersToTypes_iff orderly alsoOrderly member
  | enum definition => exact Iff.rfl
  | struct definition | union definition | exception definition =>
    exact counterparts.validFields_iff orderly alsoOrderly member
  | service definition =>
    have parents : (∀ parent ∈ definition.parent, ∃ home above,
        other.Refers (move document) parent home (.service above)) ↔
          ∀ parent ∈ definition.parent, ∃ home above,
            scope.Refers document parent home (.service above) := by
      rw [← alsoOrderly.exists_linkParent_eq_ok (counterparts.moved member),
        counterparts.linkParent member, orderly.exists_linkParent_eq_ok member]
    have methods (function : FunctionDefinition) :
        other.ValidMethod (move document) function ↔ scope.ValidMethod document function :=
      counterparts.validMethod_iff orderly alsoOrderly member
    constructor
    · intro valid
      exact ⟨parents.mp valid.parent, valid.names, fun function isFunction =>
        (methods function).mp (valid.methods function isFunction)⟩
    · intro valid
      exact ⟨parents.mpr valid.parent, valid.names, fun function isFunction =>
        (methods function).mpr (valid.methods function isFunction)⟩

end WellFormed

section Declarations

/-- The same defaults of fields wait, with the counterpart of their document. -/
theorem allAwaited_moved (move : Document → Document) (document : Document) (owner : FieldOwner)
    (definitions : List FieldDefinition) (fields : List Field) :
    allAwaited (move document) owner definitions fields =
      (allAwaited document owner definitions fields).map (·.moved move) := by
  rw [allAwaited, allAwaited, List.map_flatMap]
  refine List.flatMap_congr fun pair _ => ?_
  unfold awaited
  split
  · cases pair.1.default <;> rfl
  · rfl

/-- A method adds the same, with the counterpart of its document. -/
theorem methodsAdditions_moved (move : Document → Document) (document : Document) (service : String)
    (definitions : List FunctionDefinition) (methods : List Method) :
    methodsAdditions (move document) service definitions methods =
      (methodsAdditions document service definitions methods).moved move := by
  simp only [methodsAdditions, methodAdditions, Additions.all, Additions.moved, List.flatMap_map,
    List.map_flatMap, allAwaited_moved]

variable (counterparts : scope.Counterparts other move) (member : document ∈ scope.documents)

include counterparts member

/-- Fields follow their definitions in the counterpart. -/
theorem fieldsFollow {allOptional : Bool} {definitions : List FieldDefinition} {fields : List Field}
    (follow : scope.FieldsFollow document allOptional definitions fields) :
    other.FieldsFollow (move document) allOptional definitions fields where
  each := follow.each.imp fun _ _ follows =>
    { id := follows.id
      name := follows.name
      type := (counterparts.resolve member _).trans follows.type
      requiredness := follows.requiredness
      default := follows.default }
  ids := follow.ids
  names := follow.names

omit member in
/-- A typedef has its type in the other scope as well. -/
theorem declaresTypedef {declared : TypeDeclaration} (declares : scope.DeclaresTypedef declared) :
    other.DeclaresTypedef declared := by
  obtain ⟨document, member, definition, isTypedef, target, resolved, rfl⟩ := declares
  have reordered := counterparts.reordered member
  rw [← counterparts.resolve member] at resolved
  rw [← reordered.qualified]
  exact ⟨move document, counterparts.moved member, definition,
    reordered.mem_definitions.mpr isTypedef, target, resolved, rfl⟩

variable (orderly : scope.Orderly) (lawful : other.Lawful)

include orderly lawful

/-- What passes the check for exceptions passes it in the counterpart. -/
theorem checkException {field : FieldDefinition}
    (checked : scope.checkException document field = .ok ()) :
    other.checkException (move document) field = .ok () := by
  have names := namesException_of_checkExceptionWithin orderly member checked
  exact lawful.checkException_eq_ok (counterparts.moved member)
    ((counterparts.namesException_iff orderly lawful.orderly member).mpr names)

/-- A method follows its definition in the counterpart. -/
theorem methodFollows {service : String} {definition : FunctionDefinition} {method : Method}
    (follows : scope.MethodFollows document service definition method) :
    other.MethodFollows (move document) service definition method where
  name := follows.name
  arguments := counterparts.fieldsFollow member follows.arguments
  returns := by
    simp only [counterparts.resolve member]
    exact follows.returns
  exceptions field isThrown :=
    counterparts.checkException member orderly lawful (follows.exceptions field isThrown)
  throws := counterparts.fieldsFollow member follows.throws
  oneway := follows.oneway
  silent := follows.silent
  free := follows.free
  argumentsStruct := follows.argumentsStruct
  resultStruct := follows.resultStruct

/-- A definition declares the same in the counterpart of its document.

Proof: by the form of the definition. Its qualified name and owner are those of the document, which
moving keeps; its fields and methods are linked alike because every reference in them stands for the
same type in both documents. -/
theorem declares {found : Definition} {added : Additions}
    (declares : scope.Declares document found added) :
    other.Declares (move document) found (added.moved move) := by
  have qualified := (counterparts.reordered member).qualified
  have ownerMoved (name : String) (allOptional : Bool) :
      declaredOwner (move document) name allOptional = declaredOwner document name allOptional := by
    rw [declaredOwner, declaredOwner, qualified]
  cases declares with
  | constant definition => exact .constant definition
  | typedef definition => exact .typedef definition
  | enum definition distinct fit =>
    have moved : other.Declares (move document) _ _ := .enum definition distinct fit
    rwa [qualified] at moved
  | struct definition fields follow =>
    have moved : other.Declares (move document) _ _ :=
      .struct definition fields (counterparts.fieldsFollow member follow)
    rwa [qualified, ownerMoved, allAwaited_moved] at moved
  | exception definition fields follow =>
    have moved : other.Declares (move document) _ _ :=
      .exception definition fields (counterparts.fieldsFollow member follow)
    rwa [qualified, ownerMoved, allAwaited_moved] at moved
  | union definition fields follow =>
    have moved : other.Declares (move document) _ _ :=
      .union definition fields (counterparts.fieldsFollow member follow)
    rwa [qualified, ownerMoved, allAwaited_moved] at moved
  | service definition parent methods extended follow =>
    have followed : other.MethodsFollow (move document)
        ((move document).qualified definition.name) definition.functions methods := by
      rw [qualified]
      refine ⟨follow.each.imp fun _ _ => ?_, follow.names⟩
      exact counterparts.methodFollows member orderly lawful
    have moved : other.Declares (move document) _ _ := .service definition parent methods
      ((counterparts.linkParent member definition).trans extended) followed
    rw [qualified, methodsAdditions_moved] at moved
    simpa [Additions.append, Additions.moved] using moved

end Declarations

end Counterparts

end Scope

end SchemaCodec
