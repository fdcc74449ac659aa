import SchemaCodec.Proofs.DefinedNames

/-!
# Linking keeps its promises

Every step of linking that succeeds advances: the schema only grows, and a sound state, in which all
declarations are well formed and use only types that the documents define, is left sound. Linking a
definition registers the type or the service that it declares.
-/

namespace SchemaCodec.Scope

open Linking

variable {scope : Scope}

/-- A sound state of linking: all that is linked is well formed and names only what the documents
define, and the defaults that wait belong to documents of the scope. -/
structure Sound (scope : Scope) (linking : Linking) : Prop where
  schema : linking.schema.WellFormed scope.Offers scope.OffersService
  pending : ∀ waiting ∈ linking.pending, waiting.document ∈ scope.documents

/-- What linking never undoes from one state to a later one. -/
structure Advance (scope : Scope) (linking later : Linking) : Prop where
  grows : linking.schema.Grows later.schema
  indexed : linking.schema.Indexed → later.schema.Indexed
  sound : scope.Sound linking → scope.Sound later

section Advance

variable {linking between later : Linking}

/-- A state that stays the same advances. -/
theorem Advance.refl : scope.Advance linking linking := ⟨.refl _, id, id⟩

/-- A state that advances twice advances. -/
theorem Advance.trans (first : scope.Advance linking between)
    (second : scope.Advance between later) : scope.Advance linking later :=
  ⟨first.grows.trans second.grows, second.indexed ∘ first.indexed, second.sound ∘ first.sound⟩

/-- A type that was added is registered, and the state advances if the type is well formed and,
where it is a typedef of a typedef, leads to one that is there. -/
theorem advance_insertType {document : Document} {span : Span} {declared : TypeDeclaration}
    {result : Unit} (ran : insertType document span declared linking = .ok (result, later))
    (fits : declared.WellFormed scope.Offers)
    (leads : linking.schema.Indexed → ∀ {name target},
      declared = .typedef ⟨name, .typedef target⟩ →
        linking.schema.resolve target = .ok (.typedef target)) :
    scope.Advance linking later ∧ later.schema.resolve declared.name = .ok declared.type := by
  obtain ⟨free, rfl⟩ := insertType_eq_ok.mp ran
  refine ⟨⟨linking.schema.grows_addType declared, (·.addType free), fun sound => ?_⟩, ?_⟩
  · exact ⟨sound.schema.addType free fits (leads sound.schema.indexed), sound.pending⟩
  · exact Schema.resolve_eq_ok.mpr ⟨declared, Schema.declaration?_added free, rfl⟩

/-- A struct that was added is registered, and the state advances if its fields are well formed. -/
theorem advance_insertStruct {document : Document} {span : Span} {declared : StructType}
    {result : Unit}
    (ran : insertType document span (.struct declared) linking = .ok (result, later))
    (fits : FieldsWellFormed scope.Offers declared.fields) :
    scope.Advance linking later ∧
      later.schema.resolve declared.name = .ok (.struct declared.name) :=
  advance_insertType ran fits (by simp)

end Advance

section Definitions

variable {document : Document} {linking later : Linking}

/-- A typedef that is linked is registered, as far as the index may be trusted. The induction is on
the bound: the typedefs that it leads to directly are linked first, so the chain behind it ends. -/
theorem advance_linkTypedef (member : document ∈ scope.documents) {bound : Nat}
    {above : List String} {definition : TypedefDefinition} {result : Unit}
    (ran : scope.linkTypedef bound above document definition linking = .ok (result, later)) :
    scope.Advance linking later ∧ (later.schema.Indexed →
      later.schema.resolve (document.qualified definition.name) =
        .ok (.typedef (document.qualified definition.name))) := by
  induction bound using Nat.strongRecOn
    generalizing above document definition linking later with
  | ind bound inductionHypothesis =>
    rcases linkTypedef_eq_ok.mp ran with ⟨known, found, rfl⟩ |
      ⟨-, -, fewer, rfl, target, between, resolved, direct, added⟩
    · refine ⟨.refl, fun indexed => Schema.resolve_eq_ok.mpr ⟨_, found, ?_⟩⟩
      exact congrArg DataType.typedef (indexed.declaration?_eq_some.mp found).2
    · have offered := offers_of_resolve member resolved
      unfold LinksDirectly at direct
      cases named : scope.directTypedef? document definition.target with
      | some next =>
        simp only [named] at direct
        obtain ⟨isHome, -⟩ := mem_of_directTypedef? member named
        obtain ⟨before, registered⟩ := inductionHypothesis fewer fewer.lt_succ_self isHome direct
        have behind := advance_insertType added offered fun indexed _ _ same => by
          obtain ⟨-, rfl⟩ := TypedefType.mk.inj (TypeDeclaration.typedef.inj same)
          obtain ⟨_, _, alsoNamed, isNamed⟩ := directTypedef?_of_resolve resolved
          obtain rfl := Option.some.inj (named.symm.trans alsoNamed)
          have known := registered indexed
          rwa [isNamed] at known
        exact ⟨before.trans behind.1, fun _ => behind.2⟩
      | none =>
        simp only [named] at direct
        subst direct
        refine (advance_insertType added offered fun _ _ _ same => ?_).imp_right
          fun known _ => known
        obtain ⟨-, rfl⟩ := TypedefType.mk.inj (TypeDeclaration.typedef.inj same)
        obtain ⟨_, _, alsoNamed, -⟩ := directTypedef?_of_resolve resolved
        simp [named] at alsoNamed

/-- A reference that is linked stands for a type that the documents define. -/
theorem advance_linkReference (member : document ∈ scope.documents) {reference : TypeReference}
    {type : DataType}
    (ran : scope.linkReference document reference linking = .ok (type, later)) :
    scope.Advance linking later ∧ scope.Offers type := by
  obtain ⟨resolved, direct⟩ := linkReference_eq_ok.mp ran
  refine ⟨?_, offers_of_resolve member resolved⟩
  unfold LinksDirectly at direct
  cases named : scope.directTypedef? document reference with
  | some next =>
    simp only [named] at direct
    obtain ⟨isHome, -⟩ := mem_of_directTypedef? member named
    exact (advance_linkTypedef isHome direct).1
  | none =>
    simp only [named] at direct
    subst direct
    exact .refl

/-- A default that is put aside belongs to a document of the scope.

Proof: by whether there is a default that counts. Putting it aside changes only the list of what
waits, and the document of the new one is in the scope. -/
theorem advance_putDefaultAside (member : document ∈ scope.documents) {owner : FieldOwner}
    {field : FieldDefinition} {type : DataType} {result : Unit}
    (ran : putDefaultAside document owner field type linking = .ok (result, later)) :
    scope.Advance linking later := by
  cases isDefault : field.default with
  | none =>
    simp only [putDefaultAside, isDefault, pure_eq_ok] at ran
    obtain ⟨-, rfl⟩ := ran
    exact .refl
  | some literal =>
    simp only [putDefaultAside, isDefault] at ran
    split at ran
    · obtain rfl := putAside_eq_ok.mp ran
      refine ⟨.refl _, id, fun sound => ⟨sound.schema, fun waiting isWaiting => ?_⟩⟩
      rcases List.mem_append.mp isWaiting with before | here
      · exact sound.pending waiting before
      · obtain rfl := List.mem_singleton.mp here
        exact member
    · obtain ⟨-, rfl⟩ := pure_eq_ok.mp ran
      exact .refl

/-- The fields of an owner are well formed and have none of the ids before them.

Proof: by induction on the fields, with the ids that stand before them. Each id is checked against
these and then joins them, so the ids behind it differ from it. -/
theorem advance_linkFields (member : document ∈ scope.documents) {owner : FieldOwner}
    {definitions : List FieldDefinition} {ids : List Int16} {names : List String}
    {fields : List Field}
    (ran : scope.linkFields document owner definitions ids names linking = .ok (fields, later)) :
    scope.Advance linking later ∧ FieldsWellFormed scope.Offers fields ∧
      ∀ field ∈ fields, field.id ∉ ids := by
  induction definitions generalizing ids names fields linking with
  | nil =>
    obtain ⟨rfl, rfl⟩ := pure_eq_ok.mp ran
    exact ⟨.refl, ⟨List.nodup_nil, by simp⟩, by simp⟩
  | cons definition rest inductionHypothesis =>
    simp only [linkFields, bind_eq_ok, failIf_eq_ok, pure_eq_ok] at ran
    obtain ⟨_, _, ⟨newId, rfl⟩, _, _, ⟨-, rfl⟩, type, referred, reference, _, waiting, default,
      linked, last, others, rfl, rfl⟩ := ran
    obtain ⟨first, offered⟩ := advance_linkReference member reference
    have second := advance_putDefaultAside member default
    obtain ⟨third, wellFormed, fresh⟩ := inductionHypothesis others
    refine ⟨(first.trans second).trans third, ⟨?_, ?_⟩, ?_⟩
    · rw [List.map_cons, List.nodup_cons]
      refine ⟨fun taken => ?_, wellFormed.distinct⟩
      obtain ⟨other, isOther, sameId⟩ := List.mem_map.mp taken
      exact fresh other isOther (sameId ▸ List.mem_cons_self)
    · exact List.forall_mem_cons.mpr ⟨offered, wellFormed.types⟩
    · refine List.forall_mem_cons.mpr ⟨newId, fun other isOther taken => ?_⟩
      exact fresh other isOther (List.mem_cons_of_mem _ taken)

/-- The members of an enum have distinct names, none of which stands before them.

Proof: by induction on the members, with the names that stand before them, as for the ids of fields.
-/
theorem nodup_of_linkMembers {enum : String} {definitions : List MemberDefinition}
    {names : List String} {next : Int} {members : List EnumMember}
    (linked : linkMembers document enum definitions names next = .ok members) :
    (members.map (·.name)).Nodup ∧ ∀ name ∈ members.map (·.name), name ∉ names := by
  induction definitions generalizing names next members with
  | nil =>
    obtain rfl := Except.ok.inj linked
    exact ⟨List.nodup_nil, by simp⟩
  | cons definition rest inductionHypothesis =>
    simp only [linkMembers] at linked
    split at linked
    · simp at linked
    · next newName =>
      split at linked
      · simp at linked
      · obtain ⟨others, isOthers, same⟩ := Outcome.bind_eq_ok.mp linked
        obtain rfl := Except.ok.inj same
        obtain ⟨distinct, fresh⟩ := inductionHypothesis isOthers
        rw [List.map_cons, List.nodup_cons]
        refine ⟨⟨fun taken => fresh _ taken List.mem_cons_self, distinct⟩, ?_⟩
        refine List.forall_mem_cons.mpr ⟨newName, fun name isName taken => ?_⟩
        exact fresh name isName (List.mem_cons_of_mem _ taken)

/-- An enum that is linked is registered. -/
theorem advance_linkEnum {definition : EnumDefinition} {result : Unit}
    (ran : linkEnum document definition linking = .ok (result, later)) :
    scope.Advance linking later ∧ later.schema.resolve (document.qualified definition.name) =
      .ok (.enum (document.qualified definition.name)) := by
  simp only [linkEnum, bind_eq_ok, given_eq_ok] at ran
  obtain ⟨members, _, ⟨isMembers, rfl⟩, added⟩ := ran
  exact advance_insertType added (nodup_of_linkMembers isMembers).1 (by simp)

/-- A struct or exception that is linked is registered. -/
theorem advance_linkStruct (member : document ∈ scope.documents) {isException : Bool}
    {definition : StructDefinition} {result : Unit}
    (ran : scope.linkStruct document isException definition linking = .ok (result, later)) :
    scope.Advance linking later ∧ later.schema.resolve (document.qualified definition.name) =
      .ok (.struct (document.qualified definition.name)) := by
  simp only [linkStruct, bind_eq_ok] at ran
  obtain ⟨fields, between, isFields, added⟩ := ran
  obtain ⟨before, wellFormed, -⟩ := advance_linkFields member isFields
  obtain ⟨behind, registered⟩ := advance_insertStruct added wellFormed
  exact ⟨before.trans behind, registered⟩

/-- A union that is linked is registered. -/
theorem advance_linkUnion (member : document ∈ scope.documents) {definition : StructDefinition}
    {result : Unit}
    (ran : scope.linkUnion document definition linking = .ok (result, later)) :
    scope.Advance linking later ∧ later.schema.resolve (document.qualified definition.name) =
      .ok (.union (document.qualified definition.name)) := by
  simp only [linkUnion, bind_eq_ok] at ran
  obtain ⟨fields, between, isFields, added⟩ := ran
  obtain ⟨before, wellFormed, -⟩ := advance_linkFields member isFields
  obtain ⟨behind, registered⟩ := advance_insertType added wellFormed (by simp)
  exact ⟨before.trans behind, registered⟩

end Definitions

section Services

variable {document : Document} {linking later : Linking}

/-- What a method returns is a type that the documents define. -/
theorem advance_linkReturns (member : document ∈ scope.documents)
    {reference : Option TypeReference} {returns : Option DataType}
    (ran : scope.linkReturns document reference linking = .ok (returns, later)) :
    scope.Advance linking later ∧ ∀ type ∈ returns, scope.Offers type := by
  cases reference with
  | none =>
    obtain ⟨rfl, rfl⟩ := pure_eq_ok.mp ran
    exact ⟨.refl, by simp⟩
  | some reference =>
    simp only [linkReturns, bind_eq_ok, pure_eq_ok] at ran
    obtain ⟨type, between, isType, rfl, rfl⟩ := ran
    obtain ⟨advance, offered⟩ := advance_linkReference member isType
    exact ⟨advance, by simpa using offered⟩

/-- The fields of a result struct are well formed when nothing that is thrown has the id zero. -/
theorem fieldsWellFormed_resultFields {returns : Option DataType} {throws : List Field}
    (offered : ∀ type ∈ returns, scope.Offers type)
    (wellFormed : FieldsWellFormed scope.Offers throws)
    (free : ¬(returns.isSome ∧ throws.any (·.id = 0))) :
    FieldsWellFormed scope.Offers (resultFields returns throws) := by
  cases returns with
  | none => exact wellFormed
  | some type =>
    constructor
    · refine List.nodup_cons.mpr ⟨fun taken => free ⟨rfl, ?_⟩, wellFormed.distinct⟩
      obtain ⟨other, isOther, isZero⟩ := List.mem_map.mp taken
      exact List.any_eq_true.mpr ⟨other, isOther, decide_eq_true isZero⟩
    · exact List.forall_mem_cons.mpr ⟨offered type rfl, wellFormed.types⟩

/-- The result struct of a method is well formed. -/
theorem advance_linkResult {function : FunctionDefinition} {name : String}
    {returns : Option DataType} {throws : List Field} {result : Option String}
    (offered : ∀ type ∈ returns, scope.Offers type)
    (wellFormed : FieldsWellFormed scope.Offers throws)
    (ran : linkResult document function name returns throws linking = .ok (result, later)) :
    scope.Advance linking later := by
  unfold linkResult at ran
  split at ran
  · obtain ⟨-, rfl⟩ := pure_eq_ok.mp ran
    exact .refl
  · simp only [bind_eq_ok, failIf_eq_ok, pure_eq_ok] at ran
    obtain ⟨_, _, ⟨free, rfl⟩, _, _, added, -, rfl⟩ := ran
    exact (advance_insertStruct added (fieldsWellFormed_resultFields offered wellFormed free)).1

/-- A method that is linked is well formed. -/
theorem advance_linkMethod (member : document ∈ scope.documents) {service : String}
    {function : FunctionDefinition} {method : Method}
    (ran : scope.linkMethod document service function linking = .ok (method, later)) :
    scope.Advance linking later ∧ method.WellFormed scope.Offers := by
  simp only [linkMethod, bind_eq_ok, failIf_eq_ok, given_eq_ok, pure_eq_ok] at ran
  obtain ⟨arguments, _, isArguments, returns, _, isReturns, _, _, ⟨-, rfl⟩, throws, _, isThrows,
    _, _, ⟨-, rfl⟩, _, _, added, resultStruct, _, isResult, rfl, rfl⟩ := ran
  obtain ⟨first, argumentsWellFormed, -⟩ := advance_linkFields member isArguments
  obtain ⟨second, offered⟩ := advance_linkReturns member isReturns
  obtain ⟨third, throwsWellFormed, -⟩ := advance_linkFields member isThrows
  obtain ⟨fourth, -⟩ := advance_insertStruct added argumentsWellFormed
  have fifth := advance_linkResult offered throwsWellFormed isResult
  exact ⟨(((first.trans second).trans third).trans fourth).trans fifth,
    argumentsWellFormed, offered, throwsWellFormed⟩

/-- The methods that are linked are well formed. -/
theorem advance_linkMethods (member : document ∈ scope.documents) {service : String}
    {functions : List FunctionDefinition} {names : List String} {methods : List Method}
    (ran : scope.linkMethods document service functions names linking = .ok (methods, later)) :
    scope.Advance linking later ∧ ∀ method ∈ methods, method.WellFormed scope.Offers := by
  induction functions generalizing names methods linking with
  | nil =>
    obtain ⟨rfl, rfl⟩ := pure_eq_ok.mp ran
    exact ⟨.refl, by simp⟩
  | cons function rest inductionHypothesis =>
    simp only [linkMethods, bind_eq_ok, failIf_eq_ok, pure_eq_ok] at ran
    obtain ⟨_, _, ⟨-, rfl⟩, method, _, isMethod, others, _, isOthers, rfl, rfl⟩ := ran
    obtain ⟨first, wellFormed⟩ := advance_linkMethod member isMethod
    obtain ⟨second, othersWellFormed⟩ := inductionHypothesis isOthers
    exact ⟨first.trans second, List.forall_mem_cons.mpr ⟨wellFormed, othersWellFormed⟩⟩

/-- A service extends one that the documents define. -/
theorem offersService_of_linkParent (member : document ∈ scope.documents)
    {definition : ServiceDefinition} {parent : Option String}
    (linked : scope.linkParent document definition = .ok parent) :
    ∀ name ∈ parent, scope.OffersService name := by
  unfold linkParent at linked
  split at linked
  · obtain rfl := Except.ok.inj linked
    simp
  · obtain ⟨⟨home, found⟩, isFound, linked⟩ := Outcome.bind_eq_ok.mp linked
    obtain ⟨isHome, isDefinition⟩ := mem_of_lookup member (lookupAt_eq_ok.mp isFound)
    cases found with
    | service above =>
      obtain rfl := Except.ok.inj linked
      intro name isName
      obtain rfl := Option.some.inj isName
      exact ⟨home, isHome, above, isDefinition, rfl⟩
    | _ => simp at linked

/-- A service that is linked is registered. -/
theorem advance_linkService (member : document ∈ scope.documents) {definition : ServiceDefinition}
    {result : Unit}
    (ran : scope.linkService document definition linking = .ok (result, later)) :
    scope.Advance linking later ∧
      ∃ declared, later.schema.service (document.qualified definition.name) = .ok declared := by
  simp only [linkService, bind_eq_ok, given_eq_ok, insertService_eq_ok] at ran
  obtain ⟨parent, _, ⟨isParent, rfl⟩, methods, between, isMethods, free, rfl⟩ := ran
  have extended := offersService_of_linkParent member isParent
  obtain ⟨before, wellFormed⟩ := advance_linkMethods member isMethods
  refine ⟨before.trans ⟨between.schema.grows_addService _, (·.addService free), fun sound => ?_⟩,
    ⟨document.qualified definition.name, parent, methods⟩, ?_⟩
  · exact ⟨sound.schema.addService free ⟨extended, wellFormed⟩, sound.pending⟩
  · exact Schema.service_eq_ok.mpr (NameIndex.lookup?_added free _ _)

end Services

end SchemaCodec.Scope
