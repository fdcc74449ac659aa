import Mathlib.Logic.Relation
import SchemaCodec.Proofs.LinkedDefinitions
import SchemaCodec.Proofs.NameResolution

/-!
# Well-formed documents

What documents have to be like to declare a schema together, said of the documents alone: modules,
includes and names are in order, references name types, typedefs lead to something, fields and
members and methods are told apart, and methods throw exceptions.
-/

namespace SchemaCodec

namespace Scope

variable {scope : Scope}

section Rules

variable (scope) (document : Document)

/-- Every name in a type reference, at any depth, refers to a type. -/
def RefersToTypes : TypeReference → Prop
  | .base _ => True
  | .list element | .set element => RefersToTypes element
  | .map key value => RefersToTypes key ∧ RefersToTypes value
  | .named name _ => ∃ home found, scope.Refers document name home found ∧
      (found.type? home).isSome

/-- The fields of one owner: each id and each name once, and types that are there. -/
structure ValidFields (fields : List FieldDefinition) : Prop where
  ids : (fields.map (·.id)).Nodup
  names : (fields.map (·.name)).Nodup
  types : ∀ field ∈ fields, scope.RefersToTypes document field.type

end Rules

/-- A type reference names an exception, directly or through typedefs. Each typedef is resolved in
its own document, and the chain is as long as it needs to be: a circle of typedefs names no
exception, since no finite derivation leaves it. -/
inductive NamesException (scope : Scope) : Document → TypeReference → Prop where
  | exception {document home : Document} {name : String} {span : Span}
      {definition : StructDefinition}
      (refers : scope.Refers document name home (.exception definition)) :
      NamesException scope document (.named name span)
  | typedef {document home : Document} {name : String} {span : Span}
      {definition : TypedefDefinition}
      (refers : scope.Refers document name home (.typedef definition))
      (behind : NamesException scope home definition.target) :
      NamesException scope document (.named name span)

section Rules

variable (scope : Scope) (document : Document)

/-- A method: fields in order, exceptions thrown, nothing returned or thrown where it is oneway, and
the id zero left to what is returned. -/
structure ValidMethod (definition : FunctionDefinition) : Prop where
  arguments : scope.ValidFields document definition.arguments
  returns : ∀ reference ∈ definition.returns, scope.RefersToTypes document reference
  throws : scope.ValidFields document definition.throws
  exceptions : ∀ field ∈ definition.throws, scope.NamesException document field.type
  silent : definition.oneway → definition.returns = none ∧ definition.throws = []
  free : definition.returns.isSome → ∀ field ∈ definition.throws, field.id ≠ 0

/-- A service: a parent that is a service, and methods in order, each name once. -/
structure ValidService (definition : ServiceDefinition) : Prop where
  parent : ∀ parent ∈ definition.parent, ∃ home above,
    scope.Refers document parent home (.service above)
  names : (definition.functions.map (·.name)).Nodup
  methods : ∀ function ∈ definition.functions, scope.ValidMethod document function

/-- An enum: each member name once, and numbers, given or one after the last, that fit. -/
structure ValidEnum (definition : EnumDefinition) : Prop where
  names : (definition.members.map (·.name)).Nodup
  numbers : ∀ number ∈ numbersFrom 0 definition.members,
    -0x80000000 ≤ number ∧ number < 0x80000000

/-- A definition is in order. Nothing is asked of constants. -/
def ValidDefinition : Definition → Prop
  | .constant _ => True
  | .typedef definition => scope.RefersToTypes document definition.target
  | .enum definition => ValidEnum definition
  | .struct definition | .union definition | .exception definition =>
    scope.ValidFields document definition.fields
  | .service definition => scope.ValidService document definition

end Rules

/-- A typedef of a document leads to another one when its target names that one directly. -/
def LeadsTo (scope : Scope) (first second : Document × TypedefDefinition) : Prop :=
  ∃ name span, first.2.target = .named name span ∧
    scope.Refers first.1 name second.1 (.typedef second.2)

/-- The documents of a scope are well formed: modules, includes and names are in order, every
definition is valid in its document, and typedefs do not go in circles. Nothing here runs the
linker. It is a condition on the documents alone, which is shown to decide whether they link. -/
structure WellFormed (scope : Scope) : Prop where
  modules : (scope.documents.map (·.module)).Nodup
  includes : ∀ document ∈ scope.documents, ∀ included ∈ document.includes,
    ∃ home ∈ scope.documents, home.path = included.path
  names : ∀ document ∈ scope.documents, (document.definitions.map (·.name)).Nodup
  definitions : ∀ document ∈ scope.documents, ∀ found ∈ document.definitions,
    scope.ValidDefinition document found
  /-- No typedef leads back to itself. -/
  acyclic : ∀ document ∈ scope.documents, ∀ definition, .typedef definition ∈ document.definitions →
    ¬Relation.TransGen scope.LeadsTo (document, definition) (document, definition)

section Formation

variable {documents : List Document}

/-- The documents that are kept have distinct paths, none of which was seen before. -/
theorem seenOnce_firstOfPaths {seen : List String} :
    SeenOnce (·.path) seen (firstOfPaths documents seen) := by
  induction documents generalizing seen with
  | nil => exact seenOnce_nil
  | cons document rest inductionHypothesis =>
    unfold firstOfPaths
    split
    · exact inductionHypothesis
    · next new => exact seenOnce_cons.mpr ⟨new, inductionHypothesis⟩

/-- The document that is kept for a path is the first one that was given.

Proof: by induction on the documents. The first one with the path is kept, since the path is new
until then, and documents with other paths do not matter, be they kept or not. -/
theorem find?_firstOfPaths {seen : List String} {path : String} (new : path ∉ seen) :
    (firstOfPaths documents seen).find? (·.path = path) = documents.find? (·.path = path) := by
  induction documents generalizing seen with
  | nil => rfl
  | cons document rest inductionHypothesis =>
    unfold firstOfPaths
    by_cases same : document.path = path
    · subst same
      rw [if_neg new, List.find?_cons_of_pos (by simp), List.find?_cons_of_pos (by simp)]
    · rw [List.find?_cons_of_neg (by simpa using same)]
      split
      · exact inductionHypothesis new
      · rw [List.find?_cons_of_neg (by simpa using same)]
        refine inductionHypothesis fun member => ?_
        rcases List.mem_cons.mp member with rfl | before
        · exact same rfl
        · exact new before

/-- Includes are in order when modules are distinct and every document that is included is there.

Proof: by induction on the documents that are left. The check passes at one of them exactly if its
module was not seen before and each of its includes is found, and then goes on with its module
noted. -/
theorem checkIncludes_eq_ok {rest : List Document} {modules : List (String × String)} :
    checkIncludes documents rest modules = .ok () ↔
      SeenOnce (·.module) (modules.map (·.1)) rest ∧ ∀ document ∈ rest,
        ∀ included ∈ document.includes, ∃ home ∈ documents, home.path = included.path := by
  induction rest generalizing modules with
  | nil => simp [checkIncludes, seenOnce_nil]
  | cons document rest inductionHypothesis =>
    have isNew : modules.find? (·.1 = document.module) = none ↔
        document.module ∉ modules.map (·.1) := by
      simp only [List.find?_eq_none, decide_eq_true_eq, List.mem_map, not_exists, not_and]
    have areThere : document.includes.find? (fun found => documents.all (·.path ≠ found.path)) =
        none ↔ ∀ included ∈ document.includes, ∃ home ∈ documents, home.path = included.path := by
      simp [List.find?_eq_none]
    rw [seenOnce_cons, List.forall_mem_cons, ← isNew, ← areThere]
    have behind : checkIncludes documents rest ((document.module, document.path) :: modules) =
        .ok () ↔ SeenOnce (·.module) (document.module :: modules.map (·.1)) rest ∧ ∀ other ∈ rest,
          ∀ included ∈ other.includes, ∃ home ∈ documents, home.path = included.path :=
      inductionHypothesis
    unfold checkIncludes
    cases modules.find? (·.1 = document.module) with
    | some known => simp [Outcome.bind_eq_ok]
    | none =>
      cases document.includes.find? fun found => documents.all (·.path ≠ found.path) with
      | some missing => simp [Outcome.bind_eq_ok]
      | none => simp [Outcome.bind_eq_ok, behind]

/-- Definitions are in order when their names are distinct. -/
theorem checkDefinitions_eq_ok {document : Document} {definitions : List Definition}
    {names : List String} :
    checkDefinitions document definitions names = .ok () ↔ SeenOnce (·.name) names definitions := by
  induction definitions generalizing names with
  | nil => simp [checkDefinitions, seenOnce_nil]
  | cons definition rest inductionHypothesis =>
    rw [seenOnce_cons, ← inductionHypothesis]
    by_cases taken : definition.name ∈ names <;> simp [checkDefinitions, taken]

/-- Documents form a scope when modules, includes and names are in order. -/
theorem ofDocuments_eq_ok_iff :
    ofDocuments documents = .ok scope ↔ ⟨firstOfPaths documents []⟩ = scope ∧
      (scope.documents.map (·.module)).Nodup ∧
        (∀ document ∈ scope.documents, ∀ included ∈ document.includes,
          ∃ home ∈ scope.documents, home.path = included.path) ∧
        ∀ document ∈ scope.documents, (document.definitions.map (·.name)).Nodup := by
  simp only [ofDocuments_eq_ok, checkIncludes_eq_ok, checkDefinitions_eq_ok, List.map_nil,
    seenOnce_start]
  constructor
  · rintro ⟨⟨modules, includes⟩, names, rfl⟩
    exact ⟨rfl, modules, includes, names⟩
  · rintro ⟨rfl, modules, includes, names⟩
    exact ⟨⟨modules, includes⟩, names, rfl⟩

/-- The scope that documents form is orderly when their modules and names have no dots. -/
theorem orderly_of_ofDocuments (formed : ofDocuments documents = .ok scope)
    (dotlessModules : ∀ document ∈ documents, Dotless document.module)
    (dotlessNames : ∀ document ∈ documents, ∀ found ∈ document.definitions, Dotless found.name) :
    scope.Orderly := by
  obtain ⟨rfl, modules, -, names⟩ := ofDocuments_eq_ok_iff.mp formed
  exact
    { paths := seenOnce_start.mp seenOnce_firstOfPaths
      modules := modules
      names := names
      dotlessModules := fun document isKept =>
        dotlessModules document (mem_of_mem_firstOfPaths isKept)
      dotlessNames := fun document isKept =>
        dotlessNames document (mem_of_mem_firstOfPaths isKept) }

end Formation

section References

variable {document home : Document}

/-- A reference stands for a type where every name in it refers to one.

Proof: by induction on the reference. A container resolves exactly if its parts do. A name is looked
up, and what it refers to is a type exactly if it is no constant and no service. -/
theorem Orderly.exists_resolve_eq_ok (orderly : scope.Orderly)
    (member : document ∈ scope.documents) {reference : TypeReference} :
    (∃ type, scope.resolve document reference = .ok type) ↔
      scope.RefersToTypes document reference := by
  induction reference with
  | base base => simp [resolve, RefersToTypes]
  | list element inductionHypothesis | set element inductionHypothesis =>
    simp only [resolve, Outcome.bind_eq_ok, RefersToTypes, ← inductionHypothesis]
    constructor
    · rintro ⟨_, inner, isInner, -⟩
      exact ⟨inner, isInner⟩
    · rintro ⟨inner, isInner⟩
      exact ⟨_, inner, isInner, rfl⟩
  | map key value keyHypothesis valueHypothesis =>
    simp only [resolve, Outcome.bind_eq_ok, RefersToTypes, ← keyHypothesis, ← valueHypothesis]
    constructor
    · rintro ⟨_, key, isKey, value, isValue, -⟩
      exact ⟨⟨key, isKey⟩, value, isValue⟩
    · rintro ⟨⟨key, isKey⟩, value, isValue⟩
      exact ⟨_, key, isKey, value, isValue, rfl⟩
  | named name span =>
    simp only [resolve, Outcome.bind_eq_ok, RefersToTypes, ← orderly.lookup_eq_some member]
    constructor
    · rintro ⟨type, ⟨home, found⟩, isFound, isType⟩
      refine ⟨home, found, lookupAt_eq_ok.mp isFound, ?_⟩
      cases found <;> simp [Definition.type?] at isType ⊢
    · rintro ⟨home, found, isFound, isType⟩
      obtain ⟨type, isType⟩ := Option.isSome_iff_exists.mp isType
      refine ⟨type, (home, found), lookupAt_eq_ok.mpr isFound, ?_⟩
      cases found <;> simp_all [Definition.type?]

/-- A typedef leads to the one that its target names directly. -/
theorem Orderly.leadsTo_iff (orderly : scope.Orderly) (member : document ∈ scope.documents)
    {definition : TypedefDefinition} {next : Document × TypedefDefinition} :
    scope.LeadsTo (document, definition) next ↔
      scope.directTypedef? document definition.target = some next := by
  unfold LeadsTo
  simp only [← orderly.lookup_eq_some member]
  constructor
  · rintro ⟨name, span, isTarget, isFound⟩
    rw [isTarget, directTypedef?, isFound]
  · intro direct
    cases isTarget : definition.target with
    | named name span =>
      rw [isTarget, directTypedef?] at direct
      split at direct
      · next isFound => exact ⟨name, span, rfl, Option.some.inj direct ▸ isFound⟩
      · simp at direct
    | _ => simp [isTarget, directTypedef?] at direct

/-- A typedef of the scope leads to one of the scope. -/
theorem LeadsTo.mem {first second : Document × TypedefDefinition}
    (leads : scope.LeadsTo first second) (member : first.1 ∈ scope.documents) :
    second.1 ∈ scope.documents ∧ .typedef second.2 ∈ second.1.definitions := by
  obtain ⟨name, span, -, refers⟩ := leads
  exact refers.mem member

/-- A service has a parent to extend when what it names is a service. -/
theorem Orderly.exists_linkParent_eq_ok (orderly : scope.Orderly)
    (member : document ∈ scope.documents) {definition : ServiceDefinition} :
    (∃ parent, scope.linkParent document definition = .ok parent) ↔
      ∀ parent ∈ definition.parent, ∃ home above,
        scope.Refers document parent home (.service above) := by
  unfold linkParent
  cases definition.parent with
  | none => simp
  | some parent =>
    simp only [Outcome.bind_eq_ok, ← orderly.lookup_eq_some member, Option.mem_def,
      Option.some.injEq, forall_eq']
    constructor
    · rintro ⟨linked, ⟨home, found⟩, isFound, isLinked⟩
      cases found with
      | service above => exact ⟨home, above, lookupAt_eq_ok.mp isFound⟩
      | _ => simp at isLinked
    · rintro ⟨home, above, isFound⟩
      exact ⟨_, (home, .service above), lookupAt_eq_ok.mpr isFound, rfl⟩

end References

end Scope

end SchemaCodec
