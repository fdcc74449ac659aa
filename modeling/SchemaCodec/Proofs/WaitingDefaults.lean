import SchemaCodec.Proofs.RearrangedDeclarations
import SchemaCodec.Proofs.RoutedDefaults
import SchemaCodec.Proofs.SuppliedDefaults

/-!
# Each default waits for a place of its own

No two defaults that wait behind the first pass go to the same place: their owners tell the
definitions that wrote them, since no two definitions take the same name, and the ids tell them
apart within a definition.
-/

namespace SchemaCodec.Scope

variable {scope : Scope} {document : Document} {found : Definition} {first second : PendingDefault}

/-- The defaults that wait for the fields of an owner have different ids.

Proof: each default waits for the field of one definition and has its id. Ids are distinct, so both
defaults wait for one definition, and only one default waits for it. -/
theorem FieldsFollow.eq_of_id {allOptional : Bool} {owner : FieldOwner}
    {definitions : List FieldDefinition} {fields : List Field}
    (follow : scope.FieldsFollow document allOptional definitions fields)
    (isFirst : first ∈ allAwaited document owner definitions fields)
    (isSecond : second ∈ allAwaited document owner definitions fields)
    (same : first.id = second.id) : first = second := by
  have ids {pending : PendingDefault} {definition : FieldDefinition} {type : DataType}
      (waits : pending ∈ (Scope.awaited document owner definition type).toList) :
      pending.id = definition.id := by
    unfold Scope.awaited at waits
    split at waits
    · obtain ⟨literal, -, rfl⟩ := Option.map_eq_some_iff.mp (Option.mem_toList.mp waits)
      rfl
    · simp at waits
  obtain ⟨⟨definition, field⟩, beside, isFirst⟩ := List.mem_flatMap.mp isFirst
  obtain ⟨⟨other, otherField⟩, alsoBeside, isSecond⟩ := List.mem_flatMap.mp isSecond
  have sameId : definition.id = other.id := (ids isFirst).symm.trans (same.trans (ids isSecond))
  obtain rfl := List.inj_on_of_nodup_map follow.ids (List.of_mem_zip beside).1
    (List.of_mem_zip alsoBeside).1 sameId
  obtain rfl : field = otherField :=
    (List.forall₂_zip follow.each beside).unique (List.forall₂_zip follow.each alsoBeside)
  have isAwaited := Option.mem_toList.mp isFirst
  exact Option.some.inj (isAwaited.symm.trans (Option.mem_toList.mp isSecond))

/-- A default that waits for an argument comes from a method that follows its definition. -/
theorem MethodsFollow.exists_awaited {service : String} {definitions : List FunctionDefinition}
    {methods : List Method} (follow : scope.MethodsFollow document service definitions methods)
    (waits : first ∈ (methodsAdditions document service definitions methods).pending) :
    ∃ function ∈ definitions, ∃ method, scope.MethodFollows document service function method ∧
      first ∈ allAwaited document (argumentsOwner service function.name) function.arguments
        method.arguments := by
  obtain ⟨added, isAdded, waits⟩ := List.mem_flatMap.mp waits
  obtain ⟨⟨function, method⟩, beside, rfl⟩ := List.mem_map.mp isAdded
  exact ⟨function, (List.of_mem_zip beside).1, method,
    List.forall₂_zip follow.each beside, waits⟩

/-- The defaults that wait for a definition differ in their owners or in their ids.

Proof: by the kind of the definition. The fields of a record have distinct ids. The arguments of a
service belong to the structs of its methods, whose names are distinct, so one owner is one method,
and there ids are distinct again. -/
theorem Declares.eq_of_place {added : Additions} (declares : scope.Declares document found added)
    (isFirst : first ∈ added.pending) (isSecond : second ∈ added.pending)
    (sameOwner : first.owner = second.owner) (sameId : first.id = second.id) : first = second := by
  cases declares with
  | constant | typedef | enum => simp at isFirst
  | struct definition fields follow | exception definition fields follow
  | union definition fields follow => exact follow.eq_of_id isFirst isSecond sameId
  | service definition parent methods extended follow =>
    simp only [Additions.append, List.append_nil] at isFirst isSecond
    obtain ⟨function, isFunction, method, follows, isFirst⟩ := follow.exists_awaited isFirst
    obtain ⟨other, isOther, otherMethod, alsoFollows, isSecond⟩ := follow.exists_awaited isSecond
    obtain ⟨isOwner, -⟩ := follows.arguments.awaited isFirst
    obtain ⟨isOtherOwner, -⟩ := alsoFollows.arguments.awaited isSecond
    have named : first.owner ∈ function.structNames (document.qualified definition.name) :=
      isOwner ▸ List.mem_cons_self
    have alsoNamed : first.owner ∈ other.structNames (document.qualified definition.name) :=
      sameOwner ▸ isOtherOwner ▸ List.mem_cons_self
    have sameName := eq_of_mem_structNames named alsoNamed
    obtain rfl := List.inj_on_of_nodup_map follow.names isFunction isOther sameName
    obtain rfl := follows.unique alsoFollows
    exact follows.arguments.eq_of_id isFirst isSecond sameId

/-- The owner of a default that waits for an argument is called after the method. -/
theorem Declares.owner_of_method {added : Additions}
    (declares : scope.Declares document found added) (waits : first ∈ added.pending)
    {called : String × String} (isCalled : first.method = some called) :
    first.owner = (argumentsOwner called.1 called.2).name := by
  cases declares with
  | constant | typedef | enum => simp at waits
  | struct definition fields follow | exception definition fields follow
  | union definition fields follow =>
    obtain ⟨-, isMethod, -⟩ := follow.awaited waits
    simp [isMethod, declaredOwner] at isCalled
  | service definition parent methods extended follow =>
    simp only [Additions.append, List.append_nil] at waits
    obtain ⟨function, isFunction, method, follows, waits⟩ := follow.exists_awaited waits
    obtain ⟨isOwner, isMethod, -⟩ := follows.arguments.awaited waits
    obtain rfl := Option.some.inj (isMethod.symm.trans isCalled)
    exact isOwner

/-- A default that waits for a definition has an owner whose name the definition takes. -/
theorem Declares.owner_mem_takenNames {added : Additions} (isFound : found ∈ document.definitions)
    (declares : scope.Declares document found added) (waits : first ∈ added.pending) :
    first.owner ∈ found.takenNames document := by
  obtain ⟨declared, isDeclared, isOwner, -⟩ := (belongs_of_declares isFound declares waits).field
  exact isOwner ▸ (declares.name_of_mem_types isDeclared).1

section FirstPass

variable {typed : Linking}
  (ran : (scope.documents.forM fun document =>
    document.definitions.forM (scope.linkDefinition document)) {} = .ok ((), typed))

include ran

/-- A default that waits behind the first pass waits for a definition. -/
theorem exists_declares_of_waiting (waits : first ∈ typed.pending) :
    ∃ document ∈ scope.documents, ∃ found ∈ document.definitions, ∃ added,
      scope.Declares document found added ∧ first ∈ added.pending := by
  obtain ⟨additions, each, gains⟩ := gains_linkDefinitions ran
  rw [gains.pending] at waits
  obtain ⟨added, isAdded, waits⟩ := List.mem_flatMap.mp waits
  obtain ⟨⟨document, found⟩, isPair, declares⟩ := Pairing.exists_of_mem_right each isAdded
  obtain ⟨member, isFound⟩ := mem_definitions.mp isPair
  exact ⟨document, member, found, isFound, added, declares, waits⟩

/-- A default whose owner has a name that a definition takes waits for that definition. -/
theorem Orderly.waits_of_owner (orderly : scope.Orderly) (member : document ∈ scope.documents)
    (isFound : found ∈ document.definitions) {added : Additions}
    (declares : scope.Declares document found added) (waits : first ∈ typed.pending)
    (taken : first.owner ∈ found.takenNames document) : first ∈ added.pending := by
  obtain ⟨home, isHome, other, isOther, others, alsoDeclares, isFirst⟩ :=
    exists_declares_of_waiting ran waits
  have alsoTaken := alsoDeclares.owner_mem_takenNames isOther isFirst
  obtain ⟨rfl, rfl⟩ := orderly.eq_of_mem_takenNames member isHome isFound isOther taken alsoTaken
  rwa [declares.unique alsoDeclares]

/-- Two defaults that wait behind the first pass go to different places.

Proof: both come from definitions. If their owners are the same, so are the definitions, since each
name is taken by one of them, and within a definition owner and id tell the defaults apart. A
default of a method has the struct of its arguments as owner. -/
theorem Orderly.eq_or_apart (orderly : scope.Orderly) (isFirst : first ∈ typed.pending)
    (isSecond : second ∈ typed.pending) : first = second ∨ first.Apart second := by
  obtain ⟨document, member, found, isFound, added, declares, waits⟩ :=
    exists_declares_of_waiting ran isFirst
  obtain ⟨home, isHome, other, isOther, others, alsoDeclares, alsoWaits⟩ :=
    exists_declares_of_waiting ran isSecond
  have same (sameOwner : first.owner = second.owner) (sameId : first.id = second.id) :
      first = second := by
    have taken := declares.owner_mem_takenNames isFound waits
    rw [sameOwner] at taken
    have together := orderly.waits_of_owner ran member isFound declares isSecond taken
    exact declares.eq_of_place waits together sameOwner sameId
  refine or_iff_not_imp_left.mpr fun differ => ⟨fun sameOwner sameId => ?_,
    fun called isCalled alsoCalled sameId => ?_⟩
  · exact differ (same sameOwner sameId)
  · refine differ (same ?_ sameId)
    rw [declares.owner_of_method waits isCalled,
      alsoDeclares.owner_of_method alsoWaits alsoCalled]

end FirstPass

end SchemaCodec.Scope
