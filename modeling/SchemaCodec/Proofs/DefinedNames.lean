import SchemaCodec.Proofs.LinkedSchema

/-!
# Names that documents define

A name refers to a definition of the document in which it stands or of one that this document
includes. So a reference stands for a type whose names are all defined by some document of the
scope, and a typedef that a reference names directly is one of its definitions.
-/

namespace SchemaCodec

/-- The type that a definition of a document declares, if it declares one. -/
def Definition.type? (home : Document) : Definition → Option DataType
  | struct definition | exception definition => some (.struct (home.qualified definition.name))
  | union definition => some (.union (home.qualified definition.name))
  | enum definition => some (.enum (home.qualified definition.name))
  | typedef definition => some (.typedef (home.qualified definition.name))
  | service _ | constant _ => none

namespace Scope

variable {scope : Scope}

/-- Some document defines a type under a qualified name. -/
def Defines (scope : Scope) (name : String) (type : DataType) : Prop :=
  ∃ home ∈ scope.documents, ∃ found ∈ home.definitions,
    home.qualified found.name = name ∧ found.type? home = some type

/-- The documents define every name in a type. -/
def Offers (scope : Scope) : DataType → Prop := DataType.NamesOnly scope.Defines

/-- Some document defines a service. -/
def OffersService (scope : Scope) (name : String) : Prop :=
  ∃ home ∈ scope.documents, ∃ definition, .service definition ∈ home.definitions ∧
    home.qualified definition.name = name

section Formation

/-- Documents form a scope when their includes and their names are in order. -/
theorem ofDocuments_eq_ok {documents : List Document} :
    ofDocuments documents = .ok scope ↔
      checkIncludes (firstOfPaths documents []) (firstOfPaths documents []) [] = .ok () ∧
        (∀ document ∈ firstOfPaths documents [],
          checkDefinitions document document.definitions [] = .ok ()) ∧
        ⟨firstOfPaths documents []⟩ = scope := by
  simp only [ofDocuments, Outcome.bind_eq_ok, Except.ok.injEq]
  exact ⟨fun ⟨_, includes, _, definitions, same⟩ =>
      ⟨includes, Outcome.forM_eq_ok.mp definitions, same⟩,
    fun ⟨includes, definitions, same⟩ =>
      ⟨(), includes, (), Outcome.forM_eq_ok.mpr definitions, same⟩⟩

/-- Documents that are kept are among those that were given. -/
theorem mem_of_mem_firstOfPaths {documents : List Document} {seen : List String}
    {document : Document} (kept : document ∈ firstOfPaths documents seen) :
    document ∈ documents := by
  induction documents generalizing seen with
  | nil => exact kept
  | cons head rest inductionHypothesis =>
    unfold firstOfPaths at kept
    split at kept
    · exact List.mem_cons_of_mem _ (inductionHypothesis kept)
    · rcases List.mem_cons.mp kept with rfl | behind
      · exact List.mem_cons_self
      · exact List.mem_cons_of_mem _ (inductionHypothesis behind)

end Formation

section Lookup

variable {document home : Document} {name : String} {found : Definition}

/-- A definition that is found among some documents is in one of them. -/
theorem mem_of_firstDefinition? {documents : List Document}
    (isFound : firstDefinition? documents name = some (home, found)) :
    home ∈ documents ∧ found ∈ home.definitions := by
  obtain ⟨document, member, here⟩ := List.exists_of_findSome?_eq_some isFound
  obtain ⟨definition, isDefinition, same⟩ := Option.map_eq_some_iff.mp here
  obtain ⟨rfl, rfl⟩ := Prod.mk.inj same
  exact ⟨member, List.mem_of_find?_eq_some isDefinition⟩

/-- A document that is visible from another one belongs to the scope. -/
theorem mem_of_mem_visibleFrom (visible : home ∈ scope.visibleFrom document) :
    home ∈ scope.documents := by
  obtain ⟨path, -, isHome⟩ := List.mem_filterMap.mp visible
  exact List.mem_of_find?_eq_some isHome

/-- What a name refers to is a definition of the scope. -/
theorem mem_of_lookup (member : document ∈ scope.documents)
    (isFound : scope.lookup document name = some (home, found)) :
    home ∈ scope.documents ∧ found ∈ home.definitions := by
  unfold lookup at isFound
  split at isFound
  · next here =>
    obtain ⟨rfl, rfl⟩ := Prod.mk.inj (Option.some.inj isFound)
    exact ⟨member, List.mem_of_find?_eq_some here⟩
  · split at isFound
    · obtain ⟨among, isDefinition⟩ := mem_of_firstDefinition? isFound
      obtain ⟨near, -⟩ := List.mem_filter.mp among
      rcases List.mem_cons.mp near with rfl | visible
      · exact ⟨member, isDefinition⟩
      · exact ⟨mem_of_mem_visibleFrom visible, isDefinition⟩
    · obtain ⟨visible, isDefinition⟩ := mem_of_firstDefinition? isFound
      exact ⟨mem_of_mem_visibleFrom visible, isDefinition⟩

/-- A name at a place refers to what the name refers to. -/
theorem lookupAt_eq_ok {span : Span} :
    scope.lookupAt document name span = .ok (home, found) ↔
      scope.lookup document name = some (home, found) := by
  unfold lookupAt
  cases scope.lookup document name <;> simp

/-- A reference stands for a type that the documents define, in all of its names.

Proof: by induction on the reference. Parts of a container are resolved one by one, and a name
stands for a type when it is found and is of a definition of a type, which is one of the documents.
-/
theorem offers_of_resolve (member : document ∈ scope.documents) {reference : TypeReference}
    {type : DataType} (resolved : scope.resolve document reference = .ok type) :
    scope.Offers type := by
  induction reference generalizing type with
  | base base =>
    obtain rfl := Except.ok.inj resolved
    cases base <;> trivial
  | list element inductionHypothesis =>
    obtain ⟨inner, isInner, same⟩ := Outcome.bind_eq_ok.mp resolved
    obtain rfl := Except.ok.inj same
    have offered : scope.Offers inner := inductionHypothesis isInner
    exact offered
  | set element inductionHypothesis =>
    obtain ⟨inner, isInner, same⟩ := Outcome.bind_eq_ok.mp resolved
    obtain rfl := Except.ok.inj same
    have offered : scope.Offers inner := inductionHypothesis isInner
    exact offered
  | map key value keyHypothesis valueHypothesis =>
    obtain ⟨keyType, isKey, resolved⟩ := Outcome.bind_eq_ok.mp resolved
    obtain ⟨valueType, isValue, same⟩ := Outcome.bind_eq_ok.mp resolved
    obtain rfl := Except.ok.inj same
    exact ⟨keyHypothesis isKey, valueHypothesis isValue⟩
  | named name span =>
    obtain ⟨⟨home, found⟩, isFound, resolved⟩ := Outcome.bind_eq_ok.mp resolved
    obtain ⟨isHome, isDefinition⟩ := mem_of_lookup member (lookupAt_eq_ok.mp isFound)
    cases found with
    | constant definition => simp at resolved
    | service definition => simp at resolved
    | _ =>
      obtain rfl := Except.ok.inj resolved
      exact ⟨home, isHome, _, isDefinition, rfl, rfl⟩

/-- A reference that stands for a typedef names it directly.

Proof: by the form of the reference. Base types and containers stand for no typedef, and a name
stands for one exactly when a typedef is found under it. -/
theorem directTypedef?_of_resolve {reference : TypeReference} {name : String}
    (resolved : scope.resolve document reference = .ok (.typedef name)) :
    ∃ home definition, scope.directTypedef? document reference = some (home, definition) ∧
      home.qualified definition.name = name := by
  cases reference with
  | base base => cases base <;> simp [resolve, BaseType.type] at resolved
  | list element =>
    obtain ⟨_, -, same⟩ := Outcome.bind_eq_ok.mp resolved
    simp at same
  | set element =>
    obtain ⟨_, -, same⟩ := Outcome.bind_eq_ok.mp resolved
    simp at same
  | map key value =>
    obtain ⟨_, -, resolved⟩ := Outcome.bind_eq_ok.mp resolved
    obtain ⟨_, -, same⟩ := Outcome.bind_eq_ok.mp resolved
    simp at same
  | named written span =>
    obtain ⟨⟨home, found⟩, isFound, resolved⟩ := Outcome.bind_eq_ok.mp resolved
    have known := lookupAt_eq_ok.mp isFound
    cases found with
    | typedef definition =>
      obtain rfl := DataType.typedef.inj (Except.ok.inj resolved)
      exact ⟨home, definition, by simp [directTypedef?, known], rfl⟩
    | _ => simp at resolved

/-- A typedef that is named directly is a definition of the scope. -/
theorem mem_of_directTypedef? (member : document ∈ scope.documents) {reference : TypeReference}
    {definition : TypedefDefinition}
    (direct : scope.directTypedef? document reference = some (home, definition)) :
    home ∈ scope.documents ∧ .typedef definition ∈ home.definitions := by
  unfold directTypedef? at direct
  split at direct
  · split at direct
    · next isFound =>
      obtain ⟨rfl, rfl⟩ := Prod.mk.inj (Option.some.inj direct)
      exact mem_of_lookup member isFound
    · simp at direct
  · simp at direct

end Lookup

end Scope

end SchemaCodec
