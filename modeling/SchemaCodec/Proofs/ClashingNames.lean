import Mathlib.Data.List.Pairwise
import SchemaCodec.Proofs.DeclaredNames

/-!
# Definitions that clash

Two definitions may have the same qualified name although their documents agree on modules and
names: the module `a` can define `b.C`, and the module `a.b` can define `C`. A name that is taken is
refused, with two exceptions. A typedef or a constant that is there when its turn comes counts as
linked before, so a second one of the same name is dropped without a word.

Main statement: where documents link, only typedefs clash with typedefs and constants with
constants.
-/

namespace SchemaCodec

/-- What a schema lists: types, services or constants. -/
inductive EntryKind where
  | type | service | constant
deriving DecidableEq, Repr

namespace Definition

/-- The list of a schema in which a definition is entered. Types of all sorts share one list, so
they share their names as well; a service and a constant may have the name of a type. -/
def entryKind : Definition → EntryKind
  | typedef _ | enum _ | struct _ | union _ | exception _ => .type
  | service _ => .service
  | constant _ => .constant

/-- Whether a definition may be linked before its turn, when another one names it. -/
def onDemand : Definition → Bool
  | typedef _ | constant _ => true
  | enum _ | struct _ | union _ | exception _ | service _ => false

/-- A definition that waits for its turn is entered under its name, as a service or as a type. -/
theorem mem_names_of_not_onDemand {found : Definition} (document : Document)
    (waits : found.onDemand = false) :
    found.entryKind = .service ∧ document.qualified found.name ∈ found.serviceNames document ∨
      found.entryKind = .type ∧ document.qualified found.name ∈ found.addedNames document := by
  cases found with
  | typedef | constant => simp [onDemand] at waits
  | service definition => exact .inl ⟨rfl, List.mem_singleton_self _⟩
  | enum definition | struct definition | union definition | exception definition =>
    exact .inr ⟨rfl, List.mem_singleton_self _⟩

/-- A type that is declared by a definition is a typedef when it may be linked on demand. -/
theorem exists_type?_of_type {found : Definition} (document : Document)
    (isType : found.entryKind = .type) :
    ∃ type, found.type? document = some type ∧
      (found.onDemand = true ↔ type = .typedef (document.qualified found.name)) := by
  cases found with
  | service | constant => simp [entryKind] at isType
  | typedef | enum | struct | union | exception => exact ⟨_, rfl, by simp [onDemand, name]⟩

/-- A service waits for its turn. -/
theorem not_onDemand_of_service {found : Definition} (isService : found.entryKind = .service) :
    found.onDemand = false := by
  cases found with
  | service => rfl
  | _ => simp [entryKind] at isService

end Definition

namespace Scope

variable {scope : Scope} {document home : Document} {found other : Definition}
  {typed settled later : Linking}

/-- Where names are distinct, a name is given by one definition. -/
theorem eq_of_mem_names {names : Document × Definition → List String}
    {pairs : List (Document × Definition)} (distinct : (pairs.flatMap names).Nodup)
    {first second : Document × Definition} (isFirst : first ∈ pairs) (isSecond : second ∈ pairs)
    {name : String} (named : name ∈ names first) (alsoNamed : name ∈ names second) :
    first = second := by
  have : Std.Symm (Function.onFun List.Disjoint names) := ⟨fun _ _ => List.disjoint_symm⟩
  have apart := (List.nodup_flatMap.mp distinct).2
  by_contra differ
  exact apart.forall isFirst isSecond differ named alsoNamed

variable (passes : scope.Passes typed settled later) (member : document ∈ scope.documents)
  (isHome : home ∈ scope.documents) (isFound : found ∈ document.definitions)
  (isOther : other ∈ home.definitions)

include passes member isHome isFound isOther

/-- Two types of one name are both typedefs, or neither is. -/
theorem Passes.onDemand_iff (isType : found.entryKind = .type) (alsoType : other.entryKind = .type)
    (same : document.qualified found.name = home.qualified other.name) :
    found.onDemand = true ↔ other.onDemand = true := by
  have registered := (advance_linkDefinitions passes.definitions).2 .empty
  obtain ⟨type, declares, isTypedef⟩ := Definition.exists_type?_of_type document isType
  obtain ⟨also, alsoDeclares, alsoTypedef⟩ := Definition.exists_type?_of_type home alsoType
  have first := (registered document member found isFound).type declares
  have second := (registered home isHome other isOther).type alsoDeclares
  rw [same] at first
  obtain rfl : type = also := Except.ok.inj (first.symm.trans second)
  rw [isTypedef, alsoTypedef, same]

/-- Where documents link, what has the name of another definition may be linked on demand.

Proof: a definition that is not linked on demand puts its qualified name among those of the types or
of the services. By its kind the other definition puts the same name into the same list. These lists
have no name twice, so both definitions would be one. -/
theorem Passes.onDemand_of_clash (differ : (document, found) ≠ (home, other))
    (sameKind : found.entryKind = other.entryKind)
    (same : document.qualified found.name = home.qualified other.name) :
    found.onDemand = true := by
  have isPair := mem_definitions.mpr ⟨member, isFound⟩
  have alsoPair := mem_definitions.mpr ⟨isHome, isOther⟩
  obtain ⟨types, services⟩ := passes.nodup_names
  by_contra onDemand
  have waits := eq_false_of_ne_true onDemand
  rcases Definition.mem_names_of_not_onDemand document waits with ⟨isService, named⟩ |
    ⟨isType, named⟩
  · have alsoService := sameKind.symm.trans isService
    have alsoWaits := Definition.not_onDemand_of_service alsoService
    rcases Definition.mem_names_of_not_onDemand home alsoWaits with ⟨-, alsoNamed⟩ | ⟨isType, -⟩
    · exact differ (eq_of_mem_names services isPair alsoPair named (same ▸ alsoNamed))
    · cases isType.symm.trans alsoService
  · have alsoType := sameKind.symm.trans isType
    have onDemandAlike := passes.onDemand_iff member isHome isFound isOther isType alsoType same
    have alsoWaits := eq_false_of_ne_true (onDemandAlike.not.mp onDemand)
    rcases Definition.mem_names_of_not_onDemand home alsoWaits with ⟨isService, -⟩ | ⟨-, alsoNamed⟩
    · cases alsoType.symm.trans isService
    · exact differ (eq_of_mem_names types isPair alsoPair named (same ▸ alsoNamed))

end Scope

/-- Where documents link, two definitions of one name in one list of the schema are both typedefs or
both constants.

Proof: only typedefs and constants are linked on demand. A clash of one of them is with a definition
of its kind of entry that is linked on demand as well, and for each kind there is one such form. -/
theorem only_typedefs_and_constants_clash {documents : List Document} {schema : Schema}
    (linked : link documents = .ok schema) {document home : Document} {found other : Definition}
    (member : document ∈ Scope.firstOfPaths documents [])
    (isHome : home ∈ Scope.firstOfPaths documents []) (isFound : found ∈ document.definitions)
    (isOther : other ∈ home.definitions) (differ : (document, found) ≠ (home, other))
    (sameKind : found.entryKind = other.entryKind)
    (same : document.qualified found.name = home.qualified other.name) :
    (∃ first second, found = .typedef first ∧ other = .typedef second) ∨
      ∃ first second, found = .constant first ∧ other = .constant second := by
  obtain ⟨scope, formed, typed, settled, later, passes, -⟩ := Scope.link_eq_ok.mp linked
  obtain ⟨-, -, rfl⟩ := Scope.ofDocuments_eq_ok.mp formed
  have onDemand := passes.onDemand_of_clash member isHome isFound isOther differ sameKind same
  cases found with
  | typedef first =>
    have alsoOnDemand := (passes.onDemand_iff member isHome isFound isOther rfl sameKind.symm
      same).mp rfl
    cases other with
    | typedef second => exact .inl ⟨first, second, rfl, rfl⟩
    | constant => cases sameKind
    | _ => simp [Definition.onDemand] at alsoOnDemand
  | constant first =>
    cases other with
    | constant second => exact .inr ⟨first, second, rfl, rfl⟩
    | _ => cases sameKind
  | _ => simp [Definition.onDemand] at onDemand

/-- A typedef with a dot in its name. -/
def outerTypedef : TypedefDefinition where
  name := "b.C"
  target := .base .i32

/-- A typedef without a dot in its name. -/
def innerTypedef : TypedefDefinition where
  name := "C"
  target := .base .string

/-- A document that defines the first typedef. -/
def outerDocument : Document where
  path := "a.thrift"
  module := "a"
  definitions := [.typedef outerTypedef]

/-- A document that defines the second typedef, with a dot in its module. -/
def innerDocument : Document where
  path := "b.thrift"
  module := "a.b"
  definitions := [.typedef innerTypedef]

/-- The two documents link, and the second typedef is dropped. -/
theorem outerDocument_links : ∃ schema, link [outerDocument, innerDocument] = .ok schema ∧
    (schema.types.map (·.name), (schema.typedefTarget "a.b.C").toOption) =
      (["a.b.C"], some .i32) :=
  Outcome.exists_ok_of_told (by decide +kernel)

/-- The two typedefs stand in different documents. -/
theorem outerTypedef_ne_innerTypedef :
    (outerDocument, Definition.typedef outerTypedef) ≠ (innerDocument, .typedef innerTypedef) := by
  intro same
  have samePath := congrArg (fun pair => pair.1.path) same
  exact absurd samePath (by decide)

/-- What clashes in the two documents is a typedef on both sides. -/
theorem outerDocument_clashes :
    outerDocument.qualified outerTypedef.name = innerDocument.qualified innerTypedef.name ∧
      ((∃ first second, Definition.typedef outerTypedef = .typedef first ∧
          Definition.typedef innerTypedef = .typedef second) ∨
        ∃ first second, Definition.typedef outerTypedef = .constant first ∧
          Definition.typedef innerTypedef = .constant second) := by
  have same : outerDocument.qualified outerTypedef.name =
      innerDocument.qualified innerTypedef.name := by decide
  obtain ⟨schema, linked, -⟩ := outerDocument_links
  refine ⟨same, only_typedefs_and_constants_clash linked ?_ ?_ ?_ ?_
    outerTypedef_ne_innerTypedef rfl same⟩
  · exact List.mem_cons_self
  · exact List.mem_cons_of_mem _ List.mem_cons_self
  · exact List.mem_singleton_self _
  · exact List.mem_singleton_self _

/-- So documents may link although two of their types have the same name. -/
theorem linked_definitions_may_clash :
    ¬∀ documents schema, link documents = .ok schema →
      ∀ document ∈ Scope.firstOfPaths documents [], ∀ home ∈ Scope.firstOfPaths documents [],
        ∀ found ∈ document.definitions, ∀ other ∈ home.definitions,
          (document, found) ≠ (home, other) → found.entryKind = other.entryKind →
            document.qualified found.name ≠ home.qualified other.name := by
  intro distinct
  obtain ⟨schema, linked, -⟩ := outerDocument_links
  refine distinct _ _ linked outerDocument ?_ innerDocument ?_ (.typedef outerTypedef)
    ?_ (.typedef innerTypedef) ?_ outerTypedef_ne_innerTypedef rfl (by decide)
  · exact List.mem_cons_self
  · exact List.mem_cons_of_mem _ List.mem_cons_self
  · exact List.mem_singleton_self _
  · exact List.mem_singleton_self _

end SchemaCodec
