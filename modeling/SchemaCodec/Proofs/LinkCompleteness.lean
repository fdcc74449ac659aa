import SchemaCodec.Proofs.TakenNames
import SchemaCodec.Proofs.TypedefTrails

/-!
# Well-formed documents link

Each step of linking succeeds where its part of the documents is in order and the names that it
takes are free. Names stay free until their turn comes: what was linked before has taken names of
its own and names of typedefs, and no definition takes the name of another one.
-/

namespace SchemaCodec.Scope

open Linking

variable {scope : Scope} {document : Document} {linking later : Linking}

/-- A state of linking leaves some names free: no type has one of them, none is the name of a
typedef, and such names belong to typedefs only. Its index may be trusted in this. -/
structure Leaves (scope : Scope) (linking : Linking) (names : List String) : Prop where
  indexed : linking.schema.Indexed
  free : ∀ declared ∈ linking.schema.types, declared.name ∉ names
  apart : ∀ name ∈ names, ∀ home ∈ scope.documents, ∀ definition,
    .typedef definition ∈ home.definitions → home.qualified definition.name ≠ name
  typedefs : ∀ declared ∈ linking.schema.types, ∀ home ∈ scope.documents, ∀ definition,
    .typedef definition ∈ home.definitions → home.qualified definition.name = declared.name →
      ∃ known, declared = .typedef known

namespace Leaves

variable {names fewer : List String}

/-- A name that is left is not entered. -/
theorem position?_eq_none (leaves : scope.Leaves linking names) {name : String}
    (isFree : name ∈ names) : linking.schema.typePositions.position? name = none := by
  rw [leaves.indexed.types.position?_eq_none, List.mem_map]
  rintro ⟨declared, member, rfl⟩
  exact leaves.free declared member isFree

/-- Fewer names are left as well. -/
theorem subset (leaves : scope.Leaves linking names) (among : fewer ⊆ names) :
    scope.Leaves linking fewer where
  indexed := leaves.indexed
  free declared member taken := leaves.free declared member (among taken)
  apart name isFree := leaves.apart name (among isFree)
  typedefs := leaves.typedefs

/-- Names are left by what is gained when no type that is added has one of them, or that of a
typedef.

Proof: a type that is gained is among those that are added or is a typedef of the documents. The
first have other names by the premise, and the names that are left are apart from all typedefs. -/
theorem gain {added : Additions} (leaves : scope.Leaves linking names)
    (gains : scope.Gains linking later added)
    (other : ∀ declared ∈ added.types, declared.name ∉ names ∧ ∀ home ∈ scope.documents,
      ∀ definition, .typedef definition ∈ home.definitions →
        home.qualified definition.name ≠ declared.name) :
    scope.Leaves later names := by
  obtain ⟨types, isTypes, -, origin⟩ := gains.types
  refine ⟨gains.indexed leaves.indexed, fun declared member taken => ?_, leaves.apart,
    fun declared member => ?_⟩
  · rcases List.mem_append.mp (isTypes ▸ member) with before | new
    · exact leaves.free declared before taken
    · rcases origin declared new with isAdded | ⟨home, isHome, definition, isTypedef, _, _, rfl⟩
      · exact (other declared isAdded).1 taken
      · exact leaves.apart _ taken home isHome definition isTypedef rfl
  · rcases List.mem_append.mp (isTypes ▸ member) with before | new
    · exact leaves.typedefs declared before
    · rcases origin declared new with isAdded | ⟨_, _, _, _, target, _, rfl⟩
      · exact fun home isHome definition isTypedef same =>
          absurd same ((other declared isAdded).2 home isHome definition isTypedef)
      · exact fun _ _ _ _ _ => ⟨_, rfl⟩

/-- Names are left by what adds typedefs alone. -/
theorem gainTypedefs (leaves : scope.Leaves linking names) (gains : scope.Gains linking later {}) :
    scope.Leaves later names :=
  leaves.gain gains (by simp)

end Leaves

section Typedefs

/-- Names under which a typedef is linked stay free while that goes on.

Proof: by strong induction on the bound. Only typedefs that are not above are inserted, and each of
them has another name than those above it. -/
theorem position?_of_linkTypedef {bound : Nat} {above : List String}
    {definition : TypedefDefinition}
    (ran : scope.linkTypedef bound above document definition linking = .ok ((), later))
    {name : String} (isAbove : name ∈ above)
    (free : linking.schema.typePositions.position? name = none) :
    later.schema.typePositions.position? name = none := by
  induction bound using Nat.strongRecOn generalizing above document definition linking later with
  | ind bound inductionHypothesis =>
    rcases linkTypedef_eq_ok.mp ran with ⟨_, -, rfl⟩ |
      ⟨-, new, fewer, rfl, target, between, -, direct, added⟩
    · exact free
    · have before : between.schema.typePositions.position? name = none := by
        unfold LinksDirectly at direct
        cases named : scope.directTypedef? document definition.target with
        | some next =>
          simp only [named] at direct
          exact inductionHypothesis fewer fewer.lt_succ_self direct
            (List.mem_append_left _ isAbove) free
        | none =>
          simp only [named] at direct
          exact direct ▸ free
      obtain ⟨-, rfl⟩ := insertType_eq_ok.mp added
      have away : name ≠ document.qualified definition.name := fun same => new (same ▸ isAbove)
      exact (NameIndex.position?_add ..).trans (by rw [before, Option.none_or]; exact if_neg away)

/-- A typedef at the end of a trail can be linked, with a bound for all other definitions. The
induction is on the bound: each step prolongs the trail.

Proof: a trail is shorter than the number of definitions, so the bound is not used up. The target is
resolved because the typedef is in order, the typedef that it names is at the end of a longer trail,
and the own name stays free while that one is linked. -/
theorem Lawful.exists_linkTypedef (lawful : scope.Lawful) {above : List String}
    {definition : TypedefDefinition} (trail : scope.Trail above document definition) {bound : Nat}
    (enough : scope.size ≤ above.length + bound) (leaves : scope.Leaves linking []) :
    ∃ later, scope.linkTypedef bound above document definition linking = .ok ((), later) := by
  induction bound generalizing above document definition linking with
  | zero =>
    have short := trail.length_lt lawful
    omega
  | succ bound inductionHypothesis =>
    cases isFound : linking.schema.declaration? (document.qualified definition.name) with
    | some declared =>
      obtain ⟨isDeclared, named⟩ := leaves.indexed.declaration?_eq_some.mp isFound
      obtain ⟨known, rfl⟩ := leaves.typedefs declared isDeclared document trail.member definition
        trail.isTypedef named.symm
      exact ⟨linking, linkTypedef_eq_ok.mpr (.inl ⟨known, isFound, rfl⟩)⟩
    | none =>
      have valid := lawful.wellFormed.definitions document trail.member _ trail.isTypedef
      obtain ⟨target, resolved⟩ := (lawful.orderly.exists_resolve_eq_ok trail.member).mpr valid
      obtain ⟨between, direct, free⟩ : ∃ between,
          scope.LinksDirectly bound (above ++ [document.qualified definition.name]) document
            definition.target linking between ∧
          between.schema.typePositions.position? (document.qualified definition.name) = none := by
        have isFree := leaves.indexed.types.position?_eq_none_iff.mpr isFound
        unfold LinksDirectly
        cases named : scope.directTypedef? document definition.target with
        | some next =>
          have onwards := trail.step lawful ((lawful.orderly.leadsTo_iff trail.member).mpr named)
          obtain ⟨between, ran⟩ := inductionHypothesis onwards (by simp; omega) leaves
          exact ⟨between, ran, position?_of_linkTypedef ran (by simp) isFree⟩
        | none => exact ⟨linking, rfl, isFree⟩
      exact ⟨_, linkTypedef_eq_ok.mpr (.inr ⟨isFound, trail.not_mem lawful, bound, rfl, target,
        between, resolved, direct, insertType_eq_ok.mpr ⟨free, rfl⟩⟩)⟩

/-- A reference to types can be linked. -/
theorem Lawful.exists_linkReference (lawful : scope.Lawful) (member : document ∈ scope.documents)
    {reference : TypeReference} (refers : scope.RefersToTypes document reference)
    (leaves : scope.Leaves linking []) :
    ∃ type later, scope.linkReference document reference linking = .ok (type, later) := by
  obtain ⟨type, resolved⟩ := (lawful.orderly.exists_resolve_eq_ok member).mpr refers
  have direct : ∃ later,
      scope.LinksDirectly (scope.size + 1) [] document reference linking later := by
    unfold LinksDirectly
    cases named : scope.directTypedef? document reference with
    | some next =>
      obtain ⟨isHome, isTypedef⟩ := mem_of_directTypedef? member named
      exact lawful.exists_linkTypedef (.start isHome isTypedef) (by simp) leaves
    | none => exact ⟨linking, rfl⟩
  obtain ⟨later, linked⟩ := direct
  exact ⟨type, later, linkReference_eq_ok.mpr ⟨resolved, linked⟩⟩

end Typedefs

section Fields

/-- A default can always be put aside. -/
theorem exists_putDefaultAside (document : Document) (owner : FieldOwner)
    (definition : FieldDefinition) (type : DataType) (linking : Linking) :
    ∃ later, putDefaultAside document owner definition type linking = .ok ((), later) := by
  unfold putDefaultAside
  cases definition.default with
  | none => exact ⟨linking, rfl⟩
  | some literal =>
    cases owner.hasDefaults with
    | true => exact ⟨_, rfl⟩
    | false => exact ⟨linking, rfl⟩

/-- Fields can be linked when their ids and names are new and distinct and their types are there.

Proof: by induction on the fields. Id and name of the first one are new, its type can be linked, and
a default that is put aside adds no type, so the same names are left for the others. -/
theorem Lawful.exists_linkFields (lawful : scope.Lawful) (member : document ∈ scope.documents)
    {owner : FieldOwner} {definitions : List FieldDefinition} {ids : List Int16}
    {names : List String} (newIds : SeenOnce (·.id) ids definitions)
    (newNames : SeenOnce (·.name) names definitions)
    (types : ∀ field ∈ definitions, scope.RefersToTypes document field.type)
    (leaves : scope.Leaves linking []) :
    ∃ fields later, scope.linkFields document owner definitions ids names linking =
      .ok (fields, later) := by
  induction definitions generalizing ids names linking with
  | nil => exact ⟨_, _, rfl⟩
  | cons definition rest inductionHypothesis =>
    obtain ⟨newId, idsBehind⟩ := seenOnce_cons.mp newIds
    obtain ⟨newName, namesBehind⟩ := seenOnce_cons.mp newNames
    obtain ⟨refers, typesBehind⟩ := List.forall_mem_cons.mp types
    obtain ⟨type, referred, reference⟩ := lawful.exists_linkReference member refers leaves
    have first := leaves.gainTypedefs (gains_linkReference member reference).2
    obtain ⟨waiting, default⟩ := exists_putDefaultAside document owner definition type referred
    have second := first.gain (gains_putDefaultAside default) (by simp)
    obtain ⟨fields, last, others⟩ := inductionHypothesis idsBehind namesBehind typesBehind second
    simp only [linkFields, bind_eq_ok, failIf_eq_ok, pure_eq_ok]
    exact ⟨_, _, (), _, ⟨newId, rfl⟩, (), _, ⟨newName, rfl⟩, type, referred, reference, (), waiting,
      default, fields, last, others, rfl, rfl⟩

/-- All fields of an owner can be linked when they are in order. -/
theorem Lawful.exists_linkAllFields (lawful : scope.Lawful) (member : document ∈ scope.documents)
    (owner : FieldOwner) {definitions : List FieldDefinition}
    (valid : scope.ValidFields document definitions) (leaves : scope.Leaves linking []) :
    ∃ fields later, scope.linkFields document owner definitions [] [] linking =
      .ok (fields, later) :=
  lawful.exists_linkFields member (seenOnce_start.mpr valid.ids) (seenOnce_start.mpr valid.names)
    valid.types leaves

/-- Names that are free before the fields of an owner are linked are free behind them. -/
theorem Leaves.gainFields {names : List String} (leaves : scope.Leaves linking names)
    (member : document ∈ scope.documents) {owner : FieldOwner}
    {definitions : List FieldDefinition} {fields : List Field}
    (ran : scope.linkFields document owner definitions [] [] linking = .ok (fields, later)) :
    scope.Leaves later names :=
  leaves.gain (gains_linkAllFields member ran).2 (by simp)

end Fields

section Services

variable {service : String}

/-- A type can be added under a name that is left. -/
theorem Leaves.exists_insertType {names : List String} (leaves : scope.Leaves linking names)
    (document : Document) (span : Span) (declared : TypeDeclaration)
    (isFree : declared.name ∈ names) :
    ∃ later, insertType document span declared linking = .ok ((), later) :=
  ⟨_, insertType_eq_ok.mpr ⟨leaves.position?_eq_none isFree, rfl⟩⟩

/-- What a method returns can be linked when it is a type. -/
theorem Lawful.exists_linkReturns (lawful : scope.Lawful) (member : document ∈ scope.documents)
    {returns : Option TypeReference}
    (refers : ∀ reference ∈ returns, scope.RefersToTypes document reference)
    (leaves : scope.Leaves linking []) :
    ∃ type later, scope.linkReturns document returns linking = .ok (type, later) := by
  cases returns with
  | none => exact ⟨none, linking, rfl⟩
  | some reference =>
    obtain ⟨type, later, linked⟩ := lawful.exists_linkReference member (refers reference rfl) leaves
    exact ⟨some type, later, bind_eq_ok.mpr ⟨type, later, linked, rfl⟩⟩

/-- The result of a method can be linked when its name is left and the id zero is not taken. -/
theorem Leaves.exists_linkResult {name : String} (leaves : scope.Leaves linking [name])
    (document : Document) (function : FunctionDefinition) {returns : Option DataType}
    {throws : List Field} (free : returns.isSome → ¬throws.any (·.id = 0)) :
    ∃ result later, linkResult document function name returns throws linking =
      .ok (result, later) := by
  unfold linkResult
  split
  · exact ⟨none, linking, rfl⟩
  · obtain ⟨later, added⟩ := leaves.exists_insertType document function.span
      (.struct ⟨name, false, resultFields returns throws⟩) (List.mem_singleton_self _)
    have unclaimed : ¬(returns.isSome ∧ throws.any (·.id = 0)) := not_and.mpr free
    simp only [bind_eq_ok, failIf_eq_ok, pure_eq_ok]
    exact ⟨_, _, (), linking, ⟨unclaimed, rfl⟩, (), later, added, rfl, rfl⟩

/-- A oneway method that is in order is linked without anything to return or to throw. -/
theorem ValidMethod.silent_of_follows {function : FunctionDefinition}
    (valid : scope.ValidMethod document function) {returns : Option DataType} {throws : List Field}
    (returnsFollow : Option.Rel (fun reference type => scope.resolve document reference = .ok type)
      function.returns returns)
    (throwsFollow : scope.FieldsFollow document true function.throws throws) :
    ¬(function.oneway ∧ (returns.isSome ∨ throws ≠ [])) := by
  rintro ⟨oneway, some⟩
  obtain ⟨noReturns, noThrows⟩ := valid.silent oneway
  have each := throwsFollow.each
  rw [noThrows, List.forall₂_nil_left_iff] at each
  simp [each, ← isSome_of_rel returnsFollow, noReturns] at some

/-- What a method that is in order throws leaves the id zero to what it returns. -/
theorem ValidMethod.free_of_follows {function : FunctionDefinition}
    (valid : scope.ValidMethod document function) {returns : Option DataType} {throws : List Field}
    (returnsFollow : Option.Rel (fun reference type => scope.resolve document reference = .ok type)
      function.returns returns)
    (throwsFollow : scope.FieldsFollow document true function.throws throws) :
    returns.isSome → ¬throws.any (·.id = 0) := by
  intro returned taken
  rw [any_id_of_follows throwsFollow.each] at taken
  obtain ⟨field, isThrown, isZero⟩ := List.any_eq_true.mp taken
  exact valid.free (isSome_of_rel returnsFollow ▸ returned) field isThrown
    (of_decide_eq_true isZero)

/-- The name of the result of a method is left behind its struct of arguments. -/
theorem Leaves.gainArguments {function : FunctionDefinition}
    (leaves : scope.Leaves linking (function.structNames service)) {span : Span}
    {arguments : List Field}
    (added : insertType document span
      (.struct ⟨service ++ "." ++ function.name ++ "_args", false, arguments⟩) linking =
        .ok ((), later)) :
    scope.Leaves later [service ++ "." ++ function.name ++ "_result"] := by
  refine (leaves.subset (by simp [FunctionDefinition.structNames])).gain
    (gains_insertType added) fun declared isAdded => ?_
  obtain rfl := List.mem_singleton.mp isAdded
  refine ⟨fun same => args_ne_result _ _ (List.mem_singleton.mp same), ?_⟩
  exact leaves.apart _ List.mem_cons_self

/-- A method can be linked when it is in order and the names of its structs are left.

Proof: arguments, result and exceptions are linked in this order, each leaving the names of the
structs free for what follows. The checks behind them succeed because the method is in order, and
both structs find their names free. -/
theorem Lawful.exists_linkMethod (lawful : scope.Lawful) (member : document ∈ scope.documents)
    {function : FunctionDefinition} (valid : scope.ValidMethod document function)
    (leaves : scope.Leaves linking (function.structNames service)) :
    ∃ method later, scope.linkMethod document service function linking = .ok (method, later) := by
  obtain ⟨arguments, first, isArguments⟩ :=
    lawful.exists_linkAllFields member (argumentsOwner service function.name) valid.arguments
      (leaves.subset (by simp))
  have leaves := leaves.gainFields member isArguments
  obtain ⟨returns, second, isReturns⟩ :=
    lawful.exists_linkReturns member valid.returns (leaves.subset (by simp))
  obtain ⟨returnsFollow, gains⟩ := gains_linkReturns member isReturns
  have leaves := leaves.gainTypedefs gains
  have checked : function.throws.forM (scope.checkException document) = .ok () :=
    Outcome.forM_eq_ok.mpr fun field isThrown =>
      lawful.checkException_eq_ok member (valid.exceptions field isThrown)
  obtain ⟨throws, third, isThrows⟩ :=
    lawful.exists_linkAllFields member
      { name := service ++ "." ++ function.name ++ "_result", allOptional := true,
        hasDefaults := false } valid.throws (leaves.subset (by simp))
  have leaves := leaves.gainFields member isThrows
  obtain ⟨throwsFollow, -⟩ := gains_linkAllFields member isThrows
  have silent := valid.silent_of_follows returnsFollow throwsFollow
  obtain ⟨fourth, added⟩ := leaves.exists_insertType document function.span
    (.struct ⟨service ++ "." ++ function.name ++ "_args", false, arguments⟩)
    List.mem_cons_self
  obtain ⟨result, last, isResult⟩ := (leaves.gainArguments added).exists_linkResult document
    function (valid.free_of_follows returnsFollow throwsFollow)
  simp only [linkMethod, bind_eq_ok, failIf_eq_ok, given_eq_ok, pure_eq_ok]
  exact ⟨_, _, arguments, first, isArguments, returns, second, isReturns, (), second,
    ⟨checked, rfl⟩, throws, third, isThrows, (), third, ⟨silent, rfl⟩, (), fourth, added, result,
    last, isResult, rfl, rfl⟩

/-- Methods can be linked when they are in order, their names are new and distinct, and the names of
their structs are left.

Proof: by induction on the methods. The first one gains structs under names of its own; a method
further behind that needed one of these names would have the name of the first, and names are
distinct. -/
theorem Lawful.exists_linkMethods (lawful : scope.Lawful) (member : document ∈ scope.documents)
    {functions : List FunctionDefinition} {names : List String}
    (new : SeenOnce (·.name) names functions)
    (valid : ∀ function ∈ functions, scope.ValidMethod document function)
    (leaves : scope.Leaves linking (functions.flatMap (·.structNames service))) :
    ∃ methods later, scope.linkMethods document service functions names linking =
      .ok (methods, later) := by
  induction functions generalizing names linking with
  | nil => exact ⟨[], linking, rfl⟩
  | cons function rest inductionHypothesis =>
    obtain ⟨newName, newBehind⟩ := seenOnce_cons.mp new
    obtain ⟨here, behind⟩ := List.forall_mem_cons.mp valid
    rw [List.flatMap_cons] at leaves
    obtain ⟨method, between, isMethod⟩ := lawful.exists_linkMethod member here
      (leaves.subset (List.subset_append_left _ _))
    obtain ⟨follows, gains⟩ := gains_linkMethod member isMethod
    have leavesRest : scope.Leaves between (rest.flatMap (·.structNames service)) := by
      refine (leaves.subset (List.subset_append_right _ _)).gain gains fun declared isAdded => ?_
      obtain ⟨named, -⟩ := follows.name_of_mem_structs isAdded
      refine ⟨fun taken => ?_, leaves.apart _ (List.mem_append_left _ named)⟩
      obtain ⟨other, isOther, alsoNamed⟩ := List.mem_flatMap.mp taken
      have sameName := eq_of_mem_structNames named alsoNamed
      exact newBehind.2 other isOther (sameName ▸ List.mem_cons_self)
    obtain ⟨methods, last, others⟩ := inductionHypothesis newBehind behind leavesRest
    simp only [linkMethods, bind_eq_ok, failIf_eq_ok, pure_eq_ok]
    exact ⟨_, _, (), linking, ⟨newName, rfl⟩, method, between, isMethod, methods, last, others, rfl,
      rfl⟩

end Services

section Definitions

/-- A definition can be linked when it is in order, the names that it takes are left and no service
has its name.

Proof: by the form of the definition. Members, fields or methods are linked first, and what they
gain leaves the name of the definition free, so it is inserted. A service goes to a list of its own,
which has no service of its name by the premise. -/
theorem Lawful.exists_linkDefinition (lawful : scope.Lawful) (member : document ∈ scope.documents)
    {found : Definition} (isFound : found ∈ document.definitions)
    (leaves : scope.Leaves linking (found.takenNames document))
    (services : ∀ definition, found = .service definition →
      ∀ service ∈ linking.schema.services, service.name ≠ document.qualified definition.name) :
    ∃ later, scope.linkDefinition document found linking = .ok ((), later) := by
  have valid := lawful.wellFormed.definitions document member found isFound
  cases found with
  | constant definition => exact ⟨linking, rfl⟩
  | typedef definition =>
    exact lawful.exists_linkTypedef (.start member isFound) (by simp) leaves
  | enum definition =>
    have isMembers : linkMembers document (document.qualified definition.name) definition.members
        [] 0 = .ok (numbered definition.members (numbersFrom 0 definition.members)) :=
      linkMembers_eq_ok.mpr ⟨seenOnce_start.mpr valid.names, valid.numbers, rfl⟩
    obtain ⟨later, added⟩ := leaves.exists_insertType document definition.span
      (.enum ⟨document.qualified definition.name, _⟩) (List.mem_singleton_self _)
    simp only [linkDefinition, linkEnum, bind_eq_ok, given_eq_ok]
    exact ⟨later, _, linking, ⟨isMembers, rfl⟩, added⟩
  | struct definition | exception definition =>
    obtain ⟨fields, between, isFields⟩ := lawful.exists_linkAllFields member
      (declaredOwner document definition.name false) valid (leaves.subset (by simp))
    obtain ⟨later, added⟩ := (leaves.gainFields member isFields).exists_insertType document
      definition.span (.struct ⟨document.qualified definition.name, _, fields⟩)
      (List.mem_singleton_self _)
    simp only [linkDefinition, linkStruct, bind_eq_ok]
    exact ⟨later, fields, between, isFields, added⟩
  | union definition =>
    obtain ⟨fields, between, isFields⟩ := lawful.exists_linkAllFields member
      (declaredOwner document definition.name true) valid (leaves.subset (by simp))
    obtain ⟨later, added⟩ := (leaves.gainFields member isFields).exists_insertType document
      definition.span (.union ⟨document.qualified definition.name, fields⟩)
      (List.mem_singleton_self _)
    simp only [linkDefinition, linkUnion, bind_eq_ok]
    exact ⟨later, fields, between, isFields, added⟩
  | service definition =>
    obtain ⟨parent, extended⟩ := (lawful.orderly.exists_linkParent_eq_ok member).mpr valid.parent
    obtain ⟨methods, between, isMethods⟩ := lawful.exists_linkMethods member
      (seenOnce_start.mpr valid.names) valid.methods leaves
    obtain ⟨-, -, gains⟩ := gains_linkMethods member isMethods
    have free : between.schema.servicePositions.position?
        (document.qualified definition.name) = none := by
      rw [(gains.indexed leaves.indexed).services.position?_eq_none, gains.services,
        services_methodsAdditions, List.append_nil, List.mem_map]
      rintro ⟨service, isService, same⟩
      exact services definition rfl service isService same
    simp only [linkDefinition, linkService, bind_eq_ok, given_eq_ok]
    exact ⟨_, parent, linking, ⟨extended, rfl⟩, methods, between, isMethods,
      insertService_eq_ok.mpr ⟨free, rfl⟩⟩

end Definitions

end SchemaCodec.Scope
