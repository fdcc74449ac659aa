import SchemaCodec.Proofs.FaithfulEntries

/-!
# Every definition is materialised

Where documents without dots in their modules and names link, the schema has one entry for each
definition and for each struct in which a method travels, and no other one. Each entry mirrors its
definition, and the default of each field is a value that its own literal means: none is lost on the
way through the passes, and none reaches another field.
-/

namespace SchemaCodec

open Linking

namespace Definition

/-- The names of the types that a definition declares. -/
def typeNames (document : Document) : Definition → List String
  | typedef definition => [document.qualified definition.name]
  | found => found.addedNames document

/-- The name of the constant that a definition declares. -/
def constantNames (document : Document) : Definition → List String
  | constant definition => [document.qualified definition.name]
  | _ => []

end Definition

/-- A schema has one entry for each definition of some documents, which mirrors it, and no other
entries. -/
structure Scope.Materialises (scope : Scope) (schema : Schema) : Prop where
  types : (schema.types.map (·.name)).Perm
    (scope.definitions.flatMap fun pair => pair.2.typeNames pair.1)
  services : (schema.services.map (·.name)).Perm
    (scope.definitions.flatMap fun pair => pair.2.serviceNames pair.1)
  constants : (schema.constants.map (·.name)).Perm
    (scope.definitions.flatMap fun pair => pair.2.constantNames pair.1)
  typesOnce : (schema.types.map (·.name)).Nodup
  servicesOnce : (schema.services.map (·.name)).Nodup
  constantsOnce : (schema.constants.map (·.name)).Nodup
  mirrors : ∀ document ∈ scope.documents, ∀ found ∈ document.definitions,
    scope.Mirrors schema document found

namespace Scope

variable {scope : Scope} {document : Document} {found : Definition}
  {typed settled later : Linking} {supplied : Supply}

section Names

/-- A name that a definition gives to a type is its own, up to its end or to a further dot.

Proof: by the form of the definition. A service names the structs of its methods behind a dot; every
other definition names at most itself. -/
theorem exists_atDot_of_mem_typeNames {name : String} (named : name ∈ found.typeNames document) :
    ∃ rest, AtDot rest ∧ document.qualified found.name ++ rest = name := by
  cases found with
  | typedef definition =>
    obtain rfl := List.mem_singleton.mp named
    exact ⟨"", .inl rfl, String.append_empty⟩
  | service definition =>
    refine exists_atDot_of_mem_takenNames ?_
    obtain ⟨function, isFunction, isName⟩ := List.mem_flatMap.mp named
    refine List.mem_flatMap.mpr ⟨function, isFunction, ?_⟩
    unfold FunctionDefinition.travelNames at isName
    split at isName
    · exact List.mem_cons.mpr (.inl (List.mem_singleton.mp isName))
    · exact isName
  | constant definition => simp [Definition.typeNames, Definition.addedNames] at named
  | struct | union | exception | enum => exact exists_atDot_of_mem_takenNames named

/-- Names that tell their definitions are distinct when those of each definition are. -/
theorem Orderly.nodup_flatMap (orderly : scope.Orderly)
    {names : Document × Definition → List String}
    (each : ∀ pair ∈ scope.definitions, (names pair).Nodup)
    (tells : ∀ pair ∈ scope.definitions, ∀ name ∈ names pair, ∃ rest, AtDot rest ∧
      pair.1.qualified pair.2.name ++ rest = name) :
    (scope.definitions.flatMap names).Nodup := by
  refine List.nodup_flatMap.mpr ⟨each, orderly.nodup_definitions.imp_of_mem ?_⟩
  intro first second isFirst isSecond differ name named alsoNamed
  obtain ⟨rest, atDot, same⟩ := tells first isFirst name named
  obtain ⟨more, moreAtDot, alsoSame⟩ := tells second isSecond name alsoNamed
  obtain ⟨member, isFound⟩ := mem_definitions.mp isFirst
  obtain ⟨isHome, isOther⟩ := mem_definitions.mp isSecond
  obtain ⟨sameDocument, sameFound, -⟩ :=
    orderly.eq_of_qualified_append member isHome isFound isOther atDot moreAtDot
      (same.trans alsoSame.symm)
  exact differ (Prod.ext sameDocument sameFound)

/-- A name is given to a constant by a definition that declares it. -/
theorem mem_constantNames_iff {name : String} :
    (name ∈ scope.definitions.flatMap fun pair => pair.2.constantNames pair.1) ↔
      ∃ document ∈ scope.documents, ∃ definition, .constant definition ∈ document.definitions ∧
        document.qualified definition.name = name := by
  constructor
  · intro isName
    obtain ⟨⟨document, found⟩, isPair, named⟩ := List.mem_flatMap.mp isName
    obtain ⟨member, isFound⟩ := mem_definitions.mp isPair
    cases found with
    | constant definition =>
      exact ⟨document, member, definition, isFound, (List.mem_singleton.mp named).symm⟩
    | _ => simp [Definition.constantNames] at named
  · rintro ⟨document, member, definition, isFound, rfl⟩
    exact List.mem_flatMap.mpr ⟨(document, .constant definition),
      mem_definitions.mpr ⟨member, isFound⟩, List.mem_singleton_self _⟩

variable (orderly : scope.Orderly) (passes : scope.Passes typed settled later)

include orderly passes

/-- The names that all definitions give to types are distinct. -/
theorem Passes.nodup_typeNames :
    (scope.definitions.flatMap fun pair => pair.2.typeNames pair.1).Nodup := by
  refine orderly.nodup_flatMap (fun pair isPair => ?_) fun pair _ name named =>
    exists_atDot_of_mem_typeNames named
  have added := (List.nodup_flatMap.mp passes.nodup_names.1).1 pair isPair
  obtain ⟨document, found⟩ := pair
  cases found with
  | typedef definition => exact List.nodup_singleton _
  | _ => exact added

omit passes in
/-- The names that all definitions give to constants are distinct. -/
theorem Orderly.nodup_constantNames :
    (scope.definitions.flatMap fun pair => pair.2.constantNames pair.1).Nodup := by
  refine orderly.nodup_flatMap (fun pair isPair => ?_) fun pair _ name named => ?_
  · obtain ⟨document, found⟩ := pair
    cases found with
    | constant definition => exact List.nodup_singleton _
    | _ => exact List.nodup_nil
  · obtain ⟨document, found⟩ := pair
    cases found with
    | constant definition =>
      obtain rfl := List.mem_singleton.mp named
      exact ⟨"", .inl rfl, String.append_empty⟩
    | _ => simp [Definition.constantNames] at named

/-- Behind the first pass, the types have the names that the definitions give them.

Proof: a type behind the first pass is one that the definitions add or a typedef of theirs, and the
names of what they add are told definition by definition. In the other direction a typedef is
registered under its name, and what is added is among the types. -/
theorem Passes.mem_typeNames {name : String} :
    name ∈ typed.schema.types.map (·.name) ↔
      name ∈ scope.definitions.flatMap fun pair => pair.2.typeNames pair.1 := by
  obtain ⟨additions, each, gains⟩ := passes.gains
  have added := map_name_types each
  constructor
  · intro isName
    obtain ⟨declared, isDeclared, rfl⟩ := List.mem_map.mp isName
    rcases (orderly.mem_types_iff passes.definitions gains).mp isDeclared with isAdded |
      ⟨home, isHome, definition, isTypedef, target, -, rfl⟩
    · have named := List.mem_map_of_mem (f := (·.name)) isAdded
      rw [added] at named
      obtain ⟨⟨document, found⟩, isPair, named⟩ := List.mem_flatMap.mp named
      refine List.mem_flatMap.mpr ⟨(document, found), isPair, ?_⟩
      cases found with
      | typedef definition => simp [Definition.addedNames] at named
      | _ => exact named
    · exact List.mem_flatMap.mpr ⟨(home, .typedef definition),
        mem_definitions.mpr ⟨isHome, isTypedef⟩, List.mem_singleton_self _⟩
  · intro isName
    obtain ⟨⟨document, found⟩, isPair, named⟩ := List.mem_flatMap.mp isName
    have isAdded (named : name ∈ found.addedNames document) :
        name ∈ typed.schema.types.map (·.name) := by
      have among : name ∈ scope.definitions.flatMap fun pair => pair.2.addedNames pair.1 :=
        List.mem_flatMap.mpr ⟨(document, found), isPair, named⟩
      rw [← added] at among
      obtain ⟨declared, isAdded, rfl⟩ := List.mem_map.mp among
      exact List.mem_map_of_mem
        ((orderly.mem_types_iff passes.definitions gains).mpr (.inl isAdded))
    cases found with
    | typedef definition =>
      obtain rfl := List.mem_singleton.mp named
      obtain ⟨member, isTypedef⟩ := mem_definitions.mp isPair
      obtain ⟨target, -, isTarget⟩ := orderly.typedefTarget passes.definitions member isTypedef
      obtain ⟨known, isKnown, -⟩ := Schema.typedefTarget_eq_ok.mp isTarget
      exact List.mem_map.mpr
        ⟨_, passes.typedSound.schema.indexed.declaration?_eq_some.mp isKnown⟩
    | _ => exact isAdded named

end Names

section Entries

/-- A definition declares what the first pass adds for it. -/
theorem Passes.exists_declares (passes : scope.Passes typed settled later)
    (member : document ∈ scope.documents) (isFound : found ∈ document.definitions) :
    ∃ added, scope.Declares document found added ∧ added.types ⊆ typed.schema.types ∧
      added.services ⊆ typed.schema.services ∧ added.pending ⊆ typed.pending := by
  obtain ⟨additions, each, gains⟩ := passes.gains
  obtain ⟨added, isAdded, declares⟩ :=
    Pairing.exists_of_mem_right each.flip (mem_definitions.mpr ⟨member, isFound⟩)
  obtain ⟨types, isTypes, among, -⟩ := gains.types
  refine ⟨added, declares, fun declared isDeclared => ?_, fun service isService => ?_,
    fun pending waits => ?_⟩
  · rw [isTypes]
    exact among.subset (List.mem_flatMap.mpr ⟨added, isAdded, isDeclared⟩)
  · rw [gains.services]
    exact List.mem_flatMap.mpr ⟨added, isAdded, isService⟩
  · rw [gains.pending]
    exact List.mem_flatMap.mpr ⟨added, isAdded, waits⟩

/-- A type that is declared is found with the defaults of its fields. -/
theorem declaration?_supply_plus (indexed : typed.schema.Indexed)
    {declared : TypeDeclaration} (isDeclared : declared ∈ typed.schema.types) (supplied : Supply)
    (constants : List Constant) :
    ((typed.supply supplied).plus constants).schema.declaration? declared.name =
      some (declared.supply supplied) := by
  change (typed.schema.supply supplied).declaration? declared.name = _
  rw [indexed.declaration?_supply, indexed.declaration?_eq_some.mpr ⟨isDeclared, rfl⟩]
  rfl

/-- A service that is declared is found with the defaults of all arguments. -/
theorem service_supply_plus (indexed : typed.schema.Indexed) {service : Service}
    (isService : service ∈ typed.schema.services) (supplied : Supply) (constants : List Constant) :
    ((typed.supply supplied).plus constants).schema.service service.name =
      .ok (service.supply supplied) := by
  refine Schema.service_eq_ok.mpr ?_
  change (typed.schema.supply supplied).service? service.name = _
  rw [indexed.service?_supply, indexed.service?_eq_some.mpr ⟨isService, rfl⟩]
  rfl

/-- A type that is declared is found in the end, with the defaults of its fields. -/
theorem Filled.declaration?_of_mem (filled : scope.Filled typed later supplied)
    (indexed : typed.schema.Indexed) {declared : TypeDeclaration}
    (isDeclared : declared ∈ typed.schema.types) :
    later.schema.declaration? declared.name = some (declared.supply supplied) := by
  obtain ⟨constants, rfl⟩ := filled.state
  exact declaration?_supply_plus indexed isDeclared supplied constants

/-- A service that is declared is found in the end, with the defaults of all arguments. -/
theorem Filled.service_of_mem (filled : scope.Filled typed later supplied)
    (indexed : typed.schema.Indexed) {service : Service}
    (isService : service ∈ typed.schema.services) :
    later.schema.service service.name = .ok (service.supply supplied) := by
  obtain ⟨constants, rfl⟩ := filled.state
  exact service_supply_plus indexed isService supplied constants

variable (filled : scope.Filled typed later supplied) (orderly : scope.Orderly)
  (passes : scope.Passes typed settled later) (member : document ∈ scope.documents)

include filled orderly passes member

/-- The fields of a struct, an exception or a union mirror their definitions. -/
theorem Filled.mirrors_declared (isFound : found ∈ document.definitions) {name : String}
    {allOptional : Bool} {definitions : List FieldDefinition} {fields : List Field}
    {added : Additions} (declares : scope.Declares document found added)
    (taken : document.qualified name ∈ found.takenNames document)
    (isPending : added.pending =
      allAwaited document (declaredOwner document name allOptional) definitions fields)
    (known : added.pending ⊆ typed.pending)
    (follow : scope.FieldsFollow document allOptional definitions fields) :
    scope.FieldsMirror document (declaredOwner document name allOptional) definitions
      (fields.map (Field.supplyType (document.qualified name) supplied)) := by
  have apart := filled.eq_or_apart orderly passes.definitions
  refine filled.fieldsMirror apart follow (fun pending waits => ?_) passes.sound orderly member ?_
  · rw [← isPending]
    constructor
    · intro isOwner
      exact orderly.waits_of_owner passes.definitions member isFound declares waits
        (isOwner ▸ taken)
    · intro among
      exact (follow.awaited (isPending ▸ among)).1
  · intro pending among
    exact known (isPending ▸ among)

variable {definition : ServiceDefinition} {parent : Option String} {methods : List Method}
  (isFound : .service definition ∈ document.definitions)
  (extended : scope.linkParent document definition = .ok parent)
  (follow : scope.MethodsFollow document (document.qualified definition.name) definition.functions
    methods)

include isFound extended follow

omit filled in
/-- A default that waits for a method's arguments is known by its owner and by its method alike.

Proof: whoever waits for the struct of the arguments waits because of this service, hence because of
one of its methods. A struct of arguments has the name of one method only, so it is this one. The
other conditions tell the owner and the method of what an argument puts aside. -/
theorem Passes.awaits_argument {function : FunctionDefinition} {method : Method}
    (beside : (function, method) ∈ definition.functions.zip methods) {pending : PendingDefault}
    (waits : pending ∈ typed.pending) :
    (pending.owner = method.argumentsStruct ↔
        pending ∈ allAwaited document
          (argumentsOwner (document.qualified definition.name) function.name) function.arguments
          method.arguments) ∧
      (pending.method = some (document.qualified definition.name, method.name) ↔
        pending ∈ allAwaited document
          (argumentsOwner (document.qualified definition.name) function.name) function.arguments
          method.arguments) := by
  have declares : scope.Declares document _ _ := .service definition parent methods extended follow
  have follows := (List.forall₂_iff_zip.mp follow.each).2 beside
  have isFunction := (List.of_mem_zip beside).1
  have named : method.argumentsStruct ∈
      function.structNames (document.qualified definition.name) := by
    rw [follows.argumentsStruct]
    exact List.mem_cons_self
  have byOwner (isOwner : pending.owner = method.argumentsStruct) :
      pending ∈ allAwaited document
        (argumentsOwner (document.qualified definition.name) function.name) function.arguments
        method.arguments := by
    have taken : pending.owner ∈ (Definition.service definition).takenNames document :=
      List.mem_flatMap.mpr ⟨function, isFunction, isOwner ▸ named⟩
    have among := orderly.waits_of_owner passes.definitions member isFound declares waits taken
    simp only [Additions.append, List.append_nil] at among
    obtain ⟨other, isOther, otherMethod, alsoFollows, among⟩ := follow.exists_awaited among
    obtain ⟨isTheirs, -⟩ := alsoFollows.arguments.awaited among
    have alsoNamed : pending.owner ∈ other.structNames (document.qualified definition.name) :=
      isTheirs ▸ List.mem_cons_self
    have sameName := eq_of_mem_structNames (isOwner ▸ named) alsoNamed
    obtain rfl := List.inj_on_of_nodup_map follow.names isFunction isOther sameName
    rwa [follows.unique alsoFollows]
  refine ⟨⟨byOwner, fun among => ?_⟩, fun isCalled => byOwner ?_, fun among => ?_⟩
  · exact (follows.arguments.awaited among).1.trans follows.argumentsStruct.symm
  · obtain ⟨home, isHome, other, isOther, others, alsoDeclares, isFirst⟩ :=
      exists_declares_of_waiting passes.definitions waits
    rw [alsoDeclares.owner_of_method isFirst isCalled, follows.argumentsStruct, follows.name]
    rfl
  · rw [(follows.arguments.awaited among).2.1, follows.name]
    rfl

omit filled in
/-- No default waits for the struct in which a result travels. -/
theorem Passes.awaits_no_result {function : FunctionDefinition}
    (isFunction : function ∈ definition.functions) {pending : PendingDefault}
    (waits : pending ∈ typed.pending) :
    pending.owner ≠ document.qualified definition.name ++ "." ++ function.name ++ "_result" := by
  intro isOwner
  have declares : scope.Declares document _ _ := .service definition parent methods extended follow
  have taken : pending.owner ∈ (Definition.service definition).takenNames document := by
    refine List.mem_flatMap.mpr ⟨function, isFunction, ?_⟩
    rw [isOwner]
    exact List.mem_cons_of_mem _ (List.mem_singleton_self _)
  have among := orderly.waits_of_owner passes.definitions member isFound declares waits taken
  simp only [Additions.append, List.append_nil] at among
  obtain ⟨other, isOther, otherMethod, alsoFollows, among⟩ := follow.exists_awaited among
  exact args_ne_result _ _ ((alsoFollows.arguments.awaited among).1.symm.trans isOwner)

omit filled orderly in
/-- What waits for the arguments of a method waits behind the first pass. -/
theorem Passes.mem_pending_of_argument {function : FunctionDefinition} {method : Method}
    (beside : (function, method) ∈ definition.functions.zip methods) {pending : PendingDefault}
    (among : pending ∈ allAwaited document
      (argumentsOwner (document.qualified definition.name) function.name) function.arguments
      method.arguments) : pending ∈ typed.pending := by
  obtain ⟨added, declares, -, -, known⟩ := passes.exists_declares member isFound
  obtain rfl := declares.unique (.service definition parent methods extended follow)
  apply known
  refine List.mem_append_left _ (List.mem_flatMap.mpr
    ⟨methodAdditions document (document.qualified definition.name) function method, ?_, among⟩)
  exact List.mem_map.mpr ⟨(function, method), beside, rfl⟩

/-- The structs in which a method travels are in the schema, with the defaults of its arguments.

Proof: the structs were added with the service, so they are found with the defaults that are
addressed to them. For the arguments a default is addressed to the struct exactly if it is addressed
to the method. For the result none is, because the fields of a result put no defaults aside. -/
theorem Filled.declaration?_structs {function : FunctionDefinition} {method : Method}
    (beside : (function, method) ∈ definition.functions.zip methods) :
    ∀ declared ∈ (method.supply (document.qualified definition.name) supplied).structs,
      later.schema.declaration? declared.name = some declared := by
  have follows := (List.forall₂_iff_zip.mp follow.each).2 beside
  obtain ⟨isFunction, isMethod⟩ := List.of_mem_zip beside
  obtain ⟨added, declares, types, -, -⟩ := passes.exists_declares member isFound
  obtain rfl := declares.unique (.service definition parent methods extended follow)
  have isPending {pair : PendingDefault × Value} (isSupplied : pair ∈ supplied) :
      pair.1 ∈ typed.pending := filled.defaults ▸ List.mem_map_of_mem isSupplied
  have entry {declared : TypeDeclaration} (isStruct : declared ∈ method.structs) :
      later.schema.declaration? declared.name = some (declared.supply supplied) := by
    apply filled.declaration?_of_mem passes.typedSound.schema.indexed
    apply types
    refine List.mem_append_left _ (List.mem_flatMap.mpr
      ⟨methodAdditions document (document.qualified definition.name) function method, ?_, isStruct⟩)
    exact List.mem_map.mpr ⟨(function, method), beside, rfl⟩
  intro declared isStruct
  rcases List.mem_cons.mp isStruct with rfl | isResult
  · have found := entry List.mem_cons_self
    have alike : Field.supplyType method.argumentsStruct supplied =
        Field.supplyMethod (document.qualified definition.name) method.name supplied := by
      funext field
      apply Field.supply_congr
      intro pair isSupplied
      obtain ⟨byOwner, byMethod⟩ := passes.awaits_argument orderly member isFound extended follow
        beside (isPending isSupplied)
      exact byOwner.trans byMethod.symm
    simpa [TypeDeclaration.supply, alike, TypeDeclaration.name, Method.supply] using found
  · obtain ⟨result, isNamed, rfl⟩ := Option.map_eq_some_iff.mp (Option.mem_toList.mp isResult)
    have found := entry (List.mem_cons_of_mem _ isResult)
    rwa [TypeDeclaration.supply_of_absent] at found
    intro pair isSupplied isOwner
    have named : method.resultStruct = some result := isNamed
    rw [follows.resultStruct] at named
    split at named
    · simp at named
    · obtain rfl := Option.some.inj named
      exact passes.awaits_no_result orderly member isFound extended follow isFunction
        (isPending isSupplied) isOwner

/-- The methods of a service mirror their definitions.

Proof: the method follows its definition from the first pass on. Its arguments get the defaults that
wait for them and thereby mirror their definitions; result, exceptions and the structs are as they
were linked. -/
theorem Filled.methodMirrors {function : FunctionDefinition} {method : Method}
    (beside : (function, method) ∈ definition.functions.zip methods) :
    scope.MethodMirrors later.schema document (document.qualified definition.name) function
      (method.supply (document.qualified definition.name) supplied) := by
  have follows := (List.forall₂_iff_zip.mp follow.each).2 beside
  have apart := filled.eq_or_apart orderly passes.definitions
  have arguments := filled.fieldsMirror apart follows.arguments
    (fun pending waits =>
      (passes.awaits_argument orderly member isFound extended follow beside waits).2)
    passes.sound orderly member
    (fun pending => passes.mem_pending_of_argument member isFound extended follow beside)
  have resolves : (fun reference type => scope.resolve document reference = .ok type) =
      scope.StandsFor document := by
    funext reference type
    exact propext (orderly.resolve_eq_ok member)
  have throws := orderly.throwsMirror member follows
  exact
    { name := follows.name
      arguments := arguments
      returns := resolves ▸ follows.returns
      throws := throws
      oneway := follows.oneway
      argumentsStruct := follows.argumentsStruct
      resultStruct := follows.resultStruct
      structs := filled.declaration?_structs orderly passes member isFound extended follow beside }

end Entries

section Constants

variable {before last : Linking}

/-- A step that leaves an earlier state alone, while its twin gives the same in a later one and
leaves it alone as well. -/
def Persists (before last : Linking) {α : Type} (step twin : LinkM α) : Prop :=
  ∀ {result : α} {later : Linking}, step before = .ok (result, later) →
    later = before ∧ twin last = .ok (result, last)

/-- What persists of the parts of a run persists of the run.

Proof: a run that leaves its state can be run again in the last one, step by step. A step that reads
the schema reads the one of the last state there, which tells the same of usable types. -/
theorem mirroring_persists {usable : DataType → Prop}
    (tells : before.schema.Tells usable last.schema) : Mirroring usable (Persists before last) where
  pure value := by
    intro result later ran
    obtain ⟨rfl, rfl⟩ := pure_eq_ok.mp ran
    exact ⟨rfl, rfl⟩
  fail error twin := by
    intro result later ran
    exact (fail_eq_ok.mp ran).elim
  bind first second := by
    intro result later ran
    obtain ⟨middle, between, here, there⟩ := bind_eq_ok.mp ran
    obtain ⟨rfl, again⟩ := first here
    obtain ⟨rfl, behind⟩ := second middle there
    exact ⟨rfl, bind_eq_ok.mpr ⟨middle, last, again, behind⟩⟩
  schema each := by
    intro result later ran
    obtain ⟨_, _, isSchema, ran⟩ := bind_eq_ok.mp ran
    obtain ⟨rfl, rfl⟩ := schema?_eq_ok.mp isSchema
    obtain ⟨rfl, again⟩ := each tells ran
    exact ⟨rfl, bind_eq_ok.mpr ⟨last.schema, last, rfl, again⟩⟩

/-- The literal of a constant becomes its value in every later state as well: the constants that it
names are there still, and the types tell the same. -/
theorem Origin.converts {definition : ConstantDefinition} {constant : Constant}
    (origin : scope.Origin before document definition constant) (precedes : before.Precedes last) :
    scope.convert scope.recalled ⟨document, definition.span, constant.name⟩ definition.value
      constant.type last = .ok (constant.value, last) := by
  have constants : ∀ home ∈ scope.documents, ∀ known, .constant known ∈ home.definitions →
      Persists before last (scope.recalled home known) (scope.recalled home known) := by
    intro home isHome known isKnown value later ran
    obtain ⟨linked, found, rfl, rfl⟩ := recalled_eq_ok.mp ran
    exact ⟨rfl, recalled_eq_ok.mpr ⟨linked, precedes.constant? found, rfl, rfl⟩⟩
  have twice : ConvertedTwice (fun _ => True) (Persists before last) scope scope id scope.recalled
      scope.recalled ⟨document, definition.span, constant.name⟩ :=
    .of_counterparts (.refl scope) (mirroring_persists precedes.types.tells) origin.member constants
  exact (mirrors_convert twice _ trivial origin.value).2

/-- The entry of a constant mirrors its definition. -/
theorem Filled.mirrors_constant (filled : scope.Filled typed later supplied)
    (sound : scope.Sound later) (orderly : scope.Orderly) (member : document ∈ scope.documents)
    {definition : ConstantDefinition} (isFound : .constant definition ∈ document.definitions) :
    scope.Mirrors later.schema document (.constant definition) := by
  obtain ⟨constant, entry⟩ :=
    filled.complete document definition (mem_definitions.mpr ⟨member, isFound⟩)
  obtain ⟨isThere, named⟩ := filled.indexed.constant?_eq_some.mp entry
  obtain ⟨front, back, split⟩ := List.append_of_mem isThere
  obtain ⟨before, precedes, -, home, source, origin⟩ := filled.grounded.origins split
  obtain ⟨rfl, same⟩ := orderly.eq_of_qualified origin.member member origin.isDefinition isFound
    (origin.name.trans named)
  obtain rfl := Definition.constant.inj same
  have means := sound.means_of_convert origin.member (origin.converts precedes)
  obtain ⟨name, type, value⟩ := constant
  obtain rfl : name = home.qualified source.name := named
  exact .constant ((orderly.resolve_eq_ok member).mp origin.type) means entry

/-- The constants have the names that the definitions give them. -/
theorem Filled.mem_constantNames (filled : scope.Filled typed later supplied) {name : String} :
    name ∈ later.schema.constants.map (·.name) ↔
      name ∈ scope.definitions.flatMap fun pair => pair.2.constantNames pair.1 := by
  rw [mem_constantNames_iff]
  constructor
  · intro isName
    obtain ⟨constant, isThere, rfl⟩ := List.mem_map.mp isName
    obtain ⟨_, document, definition, origin⟩ := filled.grounded.exists_origin isThere
    exact ⟨document, origin.member, definition, origin.isDefinition, origin.name⟩
  · rintro ⟨document, member, definition, isFound, rfl⟩
    obtain ⟨constant, entry⟩ :=
      filled.complete document definition (mem_definitions.mpr ⟨member, isFound⟩)
    exact List.mem_map.mpr ⟨constant, filled.indexed.constant?_eq_some.mp entry⟩

end Constants

/-- The entry of each definition mirrors it.

Proof: by what the definition declares. What it adds in the first pass is found in the last state
with its defaults supplied, and its fields mirror those of the definition. A typedef is found with
the target that its reference stands for, and a constant with the value that its literal means. -/
theorem Filled.mirrors (filled : scope.Filled typed later supplied) (orderly : scope.Orderly)
    (passes : scope.Passes typed settled later) (member : document ∈ scope.documents)
    (isFound : found ∈ document.definitions) : scope.Mirrors later.schema document found := by
  obtain ⟨added, declares, types, services, known⟩ := passes.exists_declares member isFound
  have indexed := passes.typedSound.schema.indexed
  have entry {declared : TypeDeclaration} (isDeclared : declared ∈ added.types) :=
    filled.declaration?_of_mem indexed (types isDeclared)
  cases declares with
  | constant definition => exact filled.mirrors_constant passes.sound orderly member isFound
  | typedef definition =>
    obtain ⟨target, resolved, isTarget⟩ := orderly.typedefTarget passes.definitions member isFound
    obtain ⟨declared, isDeclared, rfl⟩ := Schema.typedefTarget_eq_ok.mp isTarget
    obtain ⟨isThere, named⟩ := indexed.declaration?_eq_some.mp isDeclared
    have found := filled.declaration?_of_mem indexed isThere
    rw [named] at found
    obtain ⟨name, target⟩ := declared
    obtain rfl : name = document.qualified definition.name := named
    exact .typedef ((orderly.resolve_eq_ok member).mp resolved) found
  | enum definition distinct fit =>
    obtain ⟨memberNames, numbers⟩ := map_numbered fit
    exact .enum memberNames numbers (entry (List.mem_singleton_self _))
  | struct definition fields follow =>
    exact .struct (filled.mirrors_declared orderly passes member isFound
      (.struct definition fields follow) (List.mem_singleton_self _) rfl known follow)
      (entry (List.mem_singleton_self _))
  | exception definition fields follow =>
    exact .exception (filled.mirrors_declared orderly passes member isFound
      (.exception definition fields follow) (List.mem_singleton_self _) rfl known follow)
      (entry (List.mem_singleton_self _))
  | union definition fields follow =>
    exact .union (filled.mirrors_declared orderly passes member isFound
      (.union definition fields follow) (List.mem_singleton_self _) rfl known follow)
      (entry (List.mem_singleton_self _))
  | service definition parent methods extended follow =>
    refine .service (orderly.parent_of_linkParent member extended) ?_
      (filled.service_of_mem indexed (services (List.mem_append_right _
        (List.mem_singleton_self _))))
    refine List.forall₂_map_right_iff.mpr (List.forall₂_iff_zip.mpr
      ⟨follow.each.length_eq, fun {function method} beside => ?_⟩)
    exact filled.methodMirrors orderly passes member isFound extended follow beside

/-- Where all passes succeed on orderly documents, all definitions are materialised.

Proof: supplying defaults and adding constants changes no name, so types and services have the names
that they had behind the first pass, and these are the names that the definitions give. No list has
a name twice, since the index inverts each of them. That entries mirror their definitions is shown
above. -/
theorem Passes.materialises (passes : scope.Passes typed settled later)
    (orderly : scope.Orderly) : scope.Materialises later.schema := by
  obtain ⟨supplied, filled⟩ := passes.filled
  obtain ⟨additions, each, gains⟩ := passes.gains
  have indexed := passes.typedSound.schema.indexed
  have typeNames : later.schema.types.map (·.name) = typed.schema.types.map (·.name) := by
    obtain ⟨constants, rfl⟩ := filled.state
    change (typed.schema.supply supplied).types.map (·.name) = _
    simp [indexed.types_supply]
  have serviceNames : later.schema.services.map (·.name) = typed.schema.services.map (·.name) := by
    obtain ⟨constants, rfl⟩ := filled.state
    change (typed.schema.supply supplied).services.map (·.name) = _
    rw [indexed.services_supply, List.map_map]
    rfl
  have constantsOnce := filled.indexed.constants.nodup
  refine
    { types := ?_
      services := ?_
      constants := ?_
      typesOnce := filled.indexed.types.nodup
      servicesOnce := filled.indexed.services.nodup
      constantsOnce
      mirrors := fun document member found isFound =>
        filled.mirrors orderly passes member isFound }
  · rw [typeNames]
    exact (List.perm_ext_iff_of_nodup indexed.types.nodup (passes.nodup_typeNames orderly)).mpr
      fun _ => passes.mem_typeNames orderly
  · rw [serviceNames, gains.services]
    exact .of_eq (map_name_services each)
  · exact (List.perm_ext_iff_of_nodup constantsOnce orderly.nodup_constantNames).mpr
      fun _ => filled.mem_constantNames

end Scope

/-- Where documents without dots in their modules and names link, those that are first of their
paths are materialised: each definition has one entry, which mirrors it, and there are no other
entries.

Proof: each definition adds its own entries in the first pass, and the later passes fill in what
these lack: typedefs, constants and defaults. Names are told apart by their modules, so no
definition has the entries of another one. -/
theorem every_definition_is_materialised {documents : List Document}
    (dotlessModules : ∀ document ∈ documents, Dotless document.module)
    (dotlessNames : ∀ document ∈ documents, ∀ found ∈ document.definitions, Dotless found.name)
    {schema : Schema} (linked : link documents = .ok schema) :
    (Scope.mk (Scope.firstOfPaths documents [])).Materialises schema := by
  obtain ⟨scope, formed, typed, settled, later, passes, rfl⟩ := Scope.link_eq_ok.mp linked
  obtain ⟨rfl, modules, -, names⟩ := Scope.ofDocuments_eq_ok_iff.mp formed
  apply passes.materialises
  exact
    { paths := seenOnce_start.mp Scope.seenOnce_firstOfPaths
      modules := modules
      names := names
      dotlessModules := fun document isKept =>
        dotlessModules document (Scope.mem_of_mem_firstOfPaths isKept)
      dotlessNames := fun document isKept =>
        dotlessNames document (Scope.mem_of_mem_firstOfPaths isKept) }

/-- The documents with constants, defaults and a typedef are materialised. -/
theorem callDocument_is_materialised :
    ∃ schema, link [callDocument, limitDocument] = .ok schema ∧
      (Scope.mk [callDocument, limitDocument]).Materialises schema := by
  have succeeds : (link [callDocument, limitDocument]).isOk = true := by decide +kernel
  obtain ⟨schema, linked⟩ := Outcome.exists_ok_of_isOk succeeds
  have kept : Scope.firstOfPaths [callDocument, limitDocument] [] =
      [callDocument, limitDocument] := rfl
  have materialises := every_definition_is_materialised (by decide) (by decide) linked
  rw [kept] at materialises
  exact ⟨schema, linked, materialises⟩

/-- A document with a method that throws, as a required field with a default. -/
def faultDocument : Document where
  path := "m.thrift"
  module := "m"
  definitions := [
    .exception { name := "E", fields := [{ id := 1, name := "why", type := .base .string }] },
    .service { name := "S", functions := [
      { name := "f", throws := [
        { id := 1, name := "e", requiredness := .required, type := .named "E" {},
          default := some (.map [(.text "why", .text "x")]) }] }] }]

/-- The document links, and what its method throws is optional. -/
theorem faultDocument_throws_optionally : ∃ schema, link [faultDocument] = .ok schema ∧
    schema.services.map (·.methods.map (·.throws.map (·.requiredness))) = [[[.optional]]] :=
  Outcome.exists_ok_of_told (by decide +kernel)

/-- So what is thrown need not keep the requiredness and the default of its definition.

Proof: the fault document links, and the one field that its method throws is required in the
document and optional in the schema, so no list of methods has both. -/
theorem thrown_fields_are_changed :
    ¬∀ documents schema, (∀ document ∈ documents, Dotless document.module) →
      (∀ document ∈ documents, ∀ found ∈ document.definitions, Dotless found.name) →
      link documents = .ok schema → ∀ document ∈ Scope.firstOfPaths documents [],
        ∀ definition, .service definition ∈ document.definitions →
          ∃ service, schema.service (document.qualified definition.name) = .ok service ∧
            List.Forall₂ (fun function method => List.Forall₂ (fun field linked =>
              linked.requiredness = field.requiredness ∧
                linked.default.isSome = field.default.isSome) function.throws method.throws)
              definition.functions service.methods := by
  intro mirrored
  obtain ⟨schema, linked, optional⟩ := faultDocument_throws_optionally
  obtain ⟨service, found, each⟩ := mirrored [faultDocument] schema (by decide) (by decide) linked
    faultDocument List.mem_cons_self _ (List.mem_cons_of_mem _ List.mem_cons_self)
  have among := List.mem_map_of_mem (f := (·.methods.map (·.throws.map (·.requiredness))))
    (NameIndex.mem_of_lookup? (Schema.service_eq_ok.mp found))
  rw [optional, List.mem_singleton] at among
  generalize service.methods = methods at each among
  cases each with
  | cons throws others =>
    cases others
    generalize isThrown : Method.throws _ = thrown at throws among
    cases throws with
    | cons field others =>
      cases others
      simp [isThrown, field.1] at among

end SchemaCodec
