import SchemaCodec.Proofs.LinkAcceptance
import SchemaCodec.Proofs.Rearrangement

/-!
# Definitions in another order

Documents that are well formed are so in any order. Each definition declares the same wherever it
stands, so what the first pass of linking leaves does not depend on the order either: it leaves the
same types and services, and the same defaults wait.
-/

namespace SchemaCodec

open Linking

namespace Scope

variable {scope other : Scope} {move : Document → Document} {document : Document}

namespace Relocation

section WellFormed

/-- Typedefs lead to one another as those from which they come do.

Proof: by induction on the steps. A typedef of the other documents leads on to what its own
reference means there, which is the counterpart of what it means here. -/
theorem exists_transGen (relocation : scope.Relocation other move) (orderly : scope.Orderly)
    (member : document ∈ scope.documents) {definition : TypedefDefinition}
    {next : Document × TypedefDefinition}
    (leads : Relation.TransGen other.LeadsTo (move document, definition) next) :
    ∃ origin ∈ scope.documents, next.1 = move origin ∧
      Relation.TransGen scope.LeadsTo (document, definition) (origin, next.2) := by
  have step {document : Document} (member : document ∈ scope.documents)
      {definition : TypedefDefinition} {next : Document × TypedefDefinition}
      (leads : other.LeadsTo (move document, definition) next) :
      ∃ origin ∈ scope.documents, next.1 = move origin ∧
        scope.LeadsTo (document, definition) (origin, next.2) := by
    rw [(relocation.orderly orderly).leadsTo_iff (relocation.moved member),
      (relocation.counterparts orderly).directTypedef? member, Option.map_eq_some_iff] at leads
    obtain ⟨⟨origin, found⟩, direct, rfl⟩ := leads
    exact ⟨origin, (mem_of_directTypedef? member direct).1, rfl,
      (orderly.leadsTo_iff member).mpr direct⟩
  induction leads with
  | single leads =>
    obtain ⟨origin, isOrigin, same, here⟩ := step member leads
    exact ⟨origin, isOrigin, same, .single here⟩
  | @tail between next _ leads inductionHypothesis =>
    obtain ⟨middle, isMiddle, same, before⟩ := inductionHypothesis
    obtain ⟨between, definition⟩ := between
    obtain rfl : between = move middle := same
    obtain ⟨origin, isOrigin, sameNext, here⟩ := step isMiddle leads
    exact ⟨origin, isOrigin, sameNext, before.tail here⟩

/-- Documents that are orderly and well formed are so in another order.

Proof: every condition is said of documents, of definitions and of what names refer to. Documents
have counterparts with the same definitions, and names refer to the counterparts of what they
referred to, so each condition carries over. -/
theorem lawful (relocation : scope.Relocation other move) (lawful : scope.Lawful) :
    other.Lawful where
  orderly := relocation.orderly lawful.orderly
  wellFormed :=
    { modules := (relocation.orderly lawful.orderly).modules
      includes := by
        intro home isHome included isIncluded
        obtain ⟨document, member, rfl⟩ := relocation.exists_moved isHome
        rw [(relocation.reordered document member).includes] at isIncluded
        obtain ⟨target, isTarget, samePath⟩ :=
          lawful.wellFormed.includes document member included isIncluded
        exact ⟨move target, relocation.moved isTarget,
          (relocation.reordered target isTarget).path.trans samePath⟩
      names := (relocation.orderly lawful.orderly).names
      definitions := by
        intro home isHome found isFound
        obtain ⟨document, member, rfl⟩ := relocation.exists_moved isHome
        have isThere := (relocation.mem_definitions member).mp isFound
        exact ((relocation.counterparts lawful.orderly).validDefinition_iff lawful.orderly
          (relocation.orderly lawful.orderly) member).mpr
            (lawful.wellFormed.definitions document member found isThere)
      acyclic := by
        intro home isHome definition isTypedef cycle
        obtain ⟨document, member, rfl⟩ := relocation.exists_moved isHome
        obtain ⟨origin, isOrigin, same, leads⟩ :=
          relocation.exists_transGen lawful.orderly member cycle
        have samePath : document.path = origin.path := by
          rw [← (relocation.reordered document member).path,
            ← (relocation.reordered origin isOrigin).path]
          exact congrArg Document.path same
        obtain rfl :=
          List.inj_on_of_nodup_map lawful.orderly.paths member isOrigin samePath
        exact lawful.wellFormed.acyclic document member definition
          ((relocation.mem_definitions member).mp isTypedef) leads }

end WellFormed

end Relocation

section Uniqueness

/-- One field follows a definition. -/
theorem FieldFollows.unique {allOptional : Bool} {definition : FieldDefinition}
    {first second : Field} (follows : scope.FieldFollows document allOptional definition first)
    (also : scope.FieldFollows document allOptional definition second) : first = second := by
  have sameType := Except.ok.inj (follows.type.symm.trans also.type)
  have sameRequiredness := follows.requiredness.trans also.requiredness.symm
  have sameDefault := follows.default.trans also.default.symm
  have sameName := follows.name.trans also.name.symm
  have sameId := follows.id.trans also.id.symm
  cases first
  cases second
  simp_all

/-- One list of fields follows definitions. -/
theorem FieldsFollow.unique {allOptional : Bool} {definitions : List FieldDefinition}
    {first second : List Field}
    (follow : scope.FieldsFollow document allOptional definitions first)
    (also : scope.FieldsFollow document allOptional definitions second) : first = second := by
  have unique : Relator.RightUnique (scope.FieldFollows document allOptional) :=
    fun _ _ _ => FieldFollows.unique
  exact unique.forall₂ follow.each also.each

/-- A method returns one type. -/
theorem returns_unique {reference : Option TypeReference} {first second : Option DataType}
    (returns : Option.Rel (fun reference type => scope.resolve document reference = .ok type)
      reference first)
    (also : Option.Rel (fun reference type => scope.resolve document reference = .ok type)
      reference second) : first = second := by
  cases returns with
  | none =>
    cases also
    rfl
  | some resolved =>
    cases also with
    | some alsoResolved => rw [Except.ok.inj (resolved.symm.trans alsoResolved)]

/-- One method follows a definition. -/
theorem MethodFollows.unique {service : String} {definition : FunctionDefinition}
    {first second : Method} (follows : scope.MethodFollows document service definition first)
    (also : scope.MethodFollows document service definition second) : first = second := by
  have sameReturns := returns_unique follows.returns also.returns
  have sameArguments := follows.arguments.unique also.arguments
  have sameThrows := follows.throws.unique also.throws
  have sameName := follows.name.trans also.name.symm
  have sameOneway := follows.oneway.trans also.oneway.symm
  have sameStruct := follows.argumentsStruct.trans also.argumentsStruct.symm
  have sameResult := follows.resultStruct.trans also.resultStruct.symm
  cases first
  cases second
  simp_all

/-- A definition declares one thing.

Proof: by the kind of the definition. The fields and methods of what is added follow from those that
are written, and what follows from them is unique. -/
theorem Declares.unique {found : Definition} {first second : Additions}
    (declares : scope.Declares document found first) (also : scope.Declares document found second) :
    first = second := by
  cases declares with
  | constant | typedef =>
    cases also
    rfl
  | enum definition distinct fit =>
    cases also
    rfl
  | struct definition fields follow =>
    cases also with
    | struct _ again alsoFollow => rw [follow.unique alsoFollow]
  | exception definition fields follow =>
    cases also with
    | exception _ again alsoFollow => rw [follow.unique alsoFollow]
  | union definition fields follow =>
    cases also with
    | union _ again alsoFollow => rw [follow.unique alsoFollow]
  | service definition parent methods extended follow =>
    cases also with
    | service _ again others alsoExtended alsoFollow =>
      obtain rfl := Except.ok.inj (extended.symm.trans alsoExtended)
      have unique : Relator.RightUnique
          (scope.MethodFollows document (document.qualified definition.name)) :=
        fun _ _ _ => MethodFollows.unique
      rw [unique.forall₂ follow.each alsoFollow.each]

end Uniqueness

end Scope

namespace Scope

variable {scope other : Scope} {move : Document → Document} {document : Document}

section FirstPass

/-- The additions of all definitions are those of the definitions in another order, with the
counterparts of all documents.

Proof: the definitions of the other documents are the counterparts in another order, and what a
counterpart adds is what the definition adds, moved. A definition adds one thing only, so the lists
of additions are permuted in the same way. -/
theorem Relocation.additions (relocation : scope.Relocation other move) (lawful : scope.Lawful)
    {additions again : List Additions}
    (each : List.Forall₂ (fun pair added => scope.Declares pair.1 pair.2 added) scope.definitions
      additions)
    (alsoEach : List.Forall₂ (fun pair added => other.Declares pair.1 pair.2 added)
      other.definitions again) :
    (additions.map (·.moved move)).Perm again := by
  have moved : List.Forall₂ (fun pair added => other.Declares pair.1 pair.2 added)
      (scope.definitions.map fun pair => (move pair.1, pair.2))
      (additions.map (·.moved move)) := by
    refine List.forall₂_map_left_iff.mpr (List.forall₂_map_right_iff.mpr ?_)
    refine (Pairing.forall₂_imp_right each.flip fun added pair isPair declares => ?_).flip
    exact (relocation.counterparts lawful.orderly).declares (Scope.mem_definitions.mp isPair).1
      lawful.orderly (relocation.lawful lawful) declares
  obtain ⟨rearranged, eachAgain, permuted⟩ :=
    List.perm_comp_forall₂ relocation.definitions.symm moved
  have unique : Relator.RightUnique
      fun (pair : Document × Definition) added => other.Declares pair.1 pair.2 added :=
    fun _ _ _ => Declares.unique
  rw [unique.forall₂ alsoEach eachAgain]
  exact permuted.symm

/-- A typedef has its type in the other scope. -/
theorem Relocation.declaresTypedef_iff (relocation : scope.Relocation other move)
    (orderly : scope.Orderly) {declared : TypeDeclaration} :
    other.DeclaresTypedef declared ↔ scope.DeclaresTypedef declared := by
  constructor
  · rintro ⟨home, isHome, definition, isTypedef, target, resolved, rfl⟩
    obtain ⟨document, member, rfl⟩ := relocation.exists_moved isHome
    rw [(relocation.counterparts orderly).resolve member] at resolved
    rw [relocation.qualified member]
    exact ⟨document, member, definition, (relocation.mem_definitions member).mp isTypedef, target,
      resolved, rfl⟩
  · exact (relocation.counterparts orderly).declaresTypedef

variable {typed : Linking}

/-- The types behind the first pass are those that the definitions declare, and all typedefs. -/
theorem Orderly.mem_types_iff (orderly : scope.Orderly)
    (ran : (scope.documents.forM fun document =>
      document.definitions.forM (scope.linkDefinition document)) {} = .ok ((), typed))
    {additions : List Additions} (gains : scope.Gains {} typed (.all additions))
    {declared : TypeDeclaration} :
    declared ∈ typed.schema.types ↔
      declared ∈ additions.flatMap (·.types) ∨ scope.DeclaresTypedef declared := by
  obtain ⟨types, isTypes, among, origin⟩ := gains.types
  obtain rfl : typed.schema.types = types := isTypes
  constructor
  · exact origin declared
  · rintro (isAdded | ⟨document, member, definition, isTypedef, target, resolved, rfl⟩)
    · exact among.subset isAdded
    · obtain ⟨again, alsoResolved, isTarget⟩ := orderly.typedefTarget ran member isTypedef
      obtain rfl := Except.ok.inj (alsoResolved.symm.trans resolved)
      obtain ⟨known, isFound, rfl⟩ := Schema.typedefTarget_eq_ok.mp isTarget
      have indexed := (sound_of_linkDefinitions ran).schema.indexed
      obtain ⟨isDeclared, named⟩ := indexed.declaration?_eq_some.mp isFound
      have sameName : known.name = document.qualified definition.name := named
      rwa [← sameName]

/-- The first pass succeeds in another order as well, and it leaves the same types, the same
services and the same defaults that wait, in some order.

Proof: the other order is lawful too, so its run succeeds. Each definition adds the same there, up
to the place of its document, and the lists gain these additions in the order of the definitions; a
permutation of the one permutes the other. -/
theorem Relocation.linkDefinitions (relocation : scope.Relocation other move)
    (lawful : scope.Lawful)
    (ran : (scope.documents.forM fun document =>
      document.definitions.forM (scope.linkDefinition document)) {} = .ok ((), typed)) :
    ∃ again, (other.documents.forM fun document =>
        document.definitions.forM (other.linkDefinition document)) {} = .ok ((), again) ∧
      typed.schema.types.Perm again.schema.types ∧
      typed.schema.services.Perm again.schema.services ∧
      (typed.pending.map (·.moved move)).Perm again.pending := by
  have orderly := relocation.orderly lawful.orderly
  obtain ⟨again, alsoRan⟩ := (relocation.lawful lawful).exists_linkDefinitions (List.prefix_refl _)
  rw [← forM_definitions] at alsoRan
  obtain ⟨additions, each, gains⟩ := gains_linkDefinitions ran
  obtain ⟨others, alsoEach, alsoGains⟩ := gains_linkDefinitions alsoRan
  have permuted := relocation.additions lawful each alsoEach
  refine ⟨again, alsoRan, ?_, ?_, ?_⟩
  · have names := (sound_of_linkDefinitions ran).schema.names
    have alsoNames := (sound_of_linkDefinitions alsoRan).schema.names
    refine (List.perm_ext_iff_of_nodup names.of_map alsoNames.of_map).mpr fun declared => ?_
    have sameTypes := permuted.flatMap_right (·.types)
    rw [List.flatMap_map] at sameTypes
    rw [lawful.orderly.mem_types_iff ran gains, orderly.mem_types_iff alsoRan alsoGains,
      relocation.declaresTypedef_iff lawful.orderly, ← sameTypes.mem_iff]
    rfl
  · have sameServices := permuted.flatMap_right (·.services)
    rw [List.flatMap_map] at sameServices
    rw [gains.services, alsoGains.services]
    exact sameServices
  · have samePending := permuted.flatMap_right (·.pending)
    rw [List.flatMap_map] at samePending
    rw [gains.pending, alsoGains.pending]
    simpa [Additions.all, Additions.moved, List.map_flatMap] using samePending

end FirstPass

end Scope

end SchemaCodec
