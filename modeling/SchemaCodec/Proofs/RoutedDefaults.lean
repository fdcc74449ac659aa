import SchemaCodec.Proofs.Completion
import SchemaCodec.Proofs.Pairing

/-!
# Where defaults go

A default is put aside with the name of its owner and the id of its field. It comes back to the
field for which it was written: no two types, services or methods share a name and no two fields of
an owner an id, and the constants and defaults that are linked in between leave all of these alone.
-/

namespace SchemaCodec

open Linking

/-- A document writes a field for the struct, exception or union of a name, or as an argument of the
method whose arguments travel in a struct of that name. -/
inductive Document.WritesField (document : Document) : String → FieldDefinition → Prop where
  | struct {definition : StructDefinition} {field : FieldDefinition}
    (isDefinition : .struct definition ∈ document.definitions)
    (isField : field ∈ definition.fields) :
    WritesField document (document.qualified definition.name) field
  | union {definition : StructDefinition} {field : FieldDefinition}
    (isDefinition : .union definition ∈ document.definitions)
    (isField : field ∈ definition.fields) :
    WritesField document (document.qualified definition.name) field
  | exception {definition : StructDefinition} {field : FieldDefinition}
    (isDefinition : .exception definition ∈ document.definitions)
    (isField : field ∈ definition.fields) :
    WritesField document (document.qualified definition.name) field
  | argument {definition : ServiceDefinition} {function : FunctionDefinition}
    {field : FieldDefinition} (isDefinition : .service definition ∈ document.definitions)
    (isFunction : function ∈ definition.functions) (isField : field ∈ function.arguments) :
    WritesField document
      (document.qualified definition.name ++ "." ++ function.name ++ "_args") field

section Routing

/-- Whatever of some fields has the id of a default that waits has its type. -/
def PendingDefault.FitsAmong (pending : PendingDefault) (fields : List Field) : Prop :=
  ∀ field ∈ fields, field.id = pending.id → field.type = pending.type

/-- A default that waits belongs to a field: whatever has the names under which it waits also has
its type. -/
structure Linking.Routed (linking : Linking) (pending : PendingDefault) : Prop where
  field : ∀ declared ∈ linking.schema.types, declared.name = pending.owner →
    ∀ fields, declared.fields? = some fields → pending.FitsAmong fields
  argument : ∀ service ∈ linking.schema.services, ∀ method ∈ service.methods,
    pending.method = some (service.name, method.name) →
      pending.owner = method.argumentsStruct ∧ pending.FitsAmong method.arguments

variable {scope : Scope} {document : Document} {pending : PendingDefault}

/-- The ids of fields are those of their definitions. -/
theorem Scope.FieldsFollow.distinct {allOptional : Bool} {definitions : List FieldDefinition}
    {fields : List Field} (follow : scope.FieldsFollow document allOptional definitions fields) :
    (fields.map (·.id)).Nodup := by
  have same : fields.map (·.id) = definitions.map (·.id) := by
    refine List.forall₂_eq_eq_eq ▸ List.forall₂_map_left_iff.mpr ?_
    exact List.forall₂_map_right_iff.mpr (follow.each.flip.imp fun _ _ follows => follows.id)
  exact same ▸ follow.ids

/-- A default that waits for a field of an owner was written for it and has its type. -/
theorem Scope.FieldsFollow.awaited {allOptional : Bool} {owner : FieldOwner}
    {definitions : List FieldDefinition} {fields : List Field}
    (follow : scope.FieldsFollow document allOptional definitions fields)
    (waits : pending ∈ allAwaited document owner definitions fields) :
    pending.owner = owner.name ∧ pending.method = owner.method ∧
      (∃ definition ∈ definitions, definition.id = pending.id ∧
        definition.default = some pending.literal) ∧ pending.FitsAmong fields := by
  obtain ⟨⟨definition, field⟩, beside, waits⟩ := List.mem_flatMap.mp waits
  have follows := (List.forall₂_iff_zip.mp follow.each).2 beside
  obtain ⟨isDefinition, isField⟩ := List.of_mem_zip beside
  unfold Scope.awaited at waits
  split at waits
  · obtain ⟨literal, isDefault, rfl⟩ := Option.map_eq_some_iff.mp (Option.mem_toList.mp waits)
    refine ⟨rfl, rfl, ⟨definition, isDefinition, rfl, isDefault⟩, fun other isOther sameId => ?_⟩
    have same : other = field := List.inj_on_of_nodup_map follow.distinct isOther isField
      (sameId.trans follows.id.symm)
    rw [same]
  · simp at waits

/-- The names of methods are those of their definitions. -/
theorem Scope.MethodsFollow.distinct {service : String} {definitions : List FunctionDefinition}
    {methods : List Method} (follow : scope.MethodsFollow document service definitions methods) :
    (methods.map (·.name)).Nodup := by
  have same : methods.map (·.name) = definitions.map (·.name) := by
    refine List.forall₂_eq_eq_eq ▸ List.forall₂_map_left_iff.mpr ?_
    exact List.forall₂_map_right_iff.mpr (follow.each.flip.imp fun _ _ follows => follows.name)
  exact same ▸ follow.names

/-- Where a default that waits came from and where it belongs, among what one definition adds. -/
structure Scope.Belongs (document : Document) (added : Additions) (pending : PendingDefault) :
    Prop where
  written : ∃ definition, document.WritesField pending.owner definition ∧
    definition.id = pending.id ∧ definition.default = some pending.literal
  field : ∃ declared ∈ added.types, declared.name = pending.owner ∧
    ∀ fields, declared.fields? = some fields → pending.FitsAmong fields
  argument : ∀ name called, pending.method = some (name, called) →
    ∃ service ∈ added.services, service.name = name ∧ (service.methods.map (·.name)).Nodup ∧
      ∃ method ∈ service.methods, method.name = called ∧
        pending.owner = method.argumentsStruct ∧ pending.FitsAmong method.arguments

/-- A default that a definition puts aside belongs to what the definition adds.

Proof: by the kind of the definition. A record has the default among its own fields. A service has
it among the arguments of one of its methods, whose struct is added along with the service and has
the same fields. -/
theorem Scope.belongs_of_declares {found : Definition} (isFound : found ∈ document.definitions)
    {added : Additions} (declares : scope.Declares document found added)
    (waits : pending ∈ added.pending) : Belongs document added pending := by
  cases declares with
  | constant | typedef | enum => simp at waits
  | struct definition fields follow =>
    obtain ⟨isOwner, isMethod, ⟨field, isField, sameId, isDefault⟩, among⟩ := follow.awaited waits
    refine ⟨⟨field, isOwner ▸ .struct isFound isField, sameId, isDefault⟩,
      ⟨_, List.mem_singleton_self _, isOwner.symm, fun _ same => Option.some.inj same ▸ among⟩, ?_⟩
    simp [isMethod, declaredOwner]
  | exception definition fields follow =>
    obtain ⟨isOwner, isMethod, ⟨field, isField, sameId, isDefault⟩, among⟩ := follow.awaited waits
    refine ⟨⟨field, isOwner ▸ .exception isFound isField, sameId, isDefault⟩,
      ⟨_, List.mem_singleton_self _, isOwner.symm, fun _ same => Option.some.inj same ▸ among⟩, ?_⟩
    simp [isMethod, declaredOwner]
  | union definition fields follow =>
    obtain ⟨isOwner, isMethod, ⟨field, isField, sameId, isDefault⟩, among⟩ := follow.awaited waits
    refine ⟨⟨field, isOwner ▸ .union isFound isField, sameId, isDefault⟩,
      ⟨_, List.mem_singleton_self _, isOwner.symm, fun _ same => Option.some.inj same ▸ among⟩, ?_⟩
    simp [isMethod, declaredOwner]
  | service definition parent methods extended follow =>
    simp only [Additions.append, List.append_nil, methodsAdditions, Additions.all,
      List.mem_flatMap, List.mem_map] at waits
    obtain ⟨_, ⟨⟨function, method⟩, beside, rfl⟩, waits⟩ := waits
    obtain ⟨isFunction, isMethod⟩ := List.of_mem_zip beside
    have follows := (List.forall₂_iff_zip.mp follow.each).2 beside
    obtain ⟨isOwner, isCalled, ⟨field, isField, sameId, isDefault⟩, among⟩ :=
      follows.arguments.awaited waits
    have travels : pending.owner = method.argumentsStruct :=
      isOwner.trans follows.argumentsStruct.symm
    refine ⟨⟨field, isOwner ▸ .argument isFound isFunction isField, sameId, isDefault⟩,
      ⟨.struct ⟨method.argumentsStruct, false, method.arguments⟩, ?_, travels.symm,
        fun _ same => Option.some.inj same ▸ among⟩, fun name called isPair => ?_⟩
    · obtain ⟨_, -, inside⟩ := mem_methodsAdditions follow.each isMethod
      exact List.mem_append_left _ (inside _ List.mem_cons_self)
    · obtain ⟨rfl, rfl⟩ := Prod.mk.inj (Option.some.inj (isCalled.symm.trans isPair))
      refine ⟨_, List.mem_append_right _ (List.mem_singleton_self _), rfl, follow.distinct, ?_⟩
      exact ⟨method, isMethod, follows.name, travels, among⟩

/-- A default that waits after the first pass was written in a document, and it is routed.

Proof: the default was put aside by the definition to which it belongs. What that definition added
is in the schema, and names are distinct there, so a declaration with the name of the owner is the
one that was added; likewise for the method. -/
theorem Scope.Passes.routed {typed settled later : Linking}
    (passes : scope.Passes typed settled later) (waits : pending ∈ typed.pending) :
    typed.Routed pending ∧ ∃ document ∈ scope.documents, ∃ definition,
      document.WritesField pending.owner definition ∧ definition.id = pending.id ∧
        definition.default = some pending.literal := by
  obtain ⟨additions, each, gains⟩ := passes.gains
  have names := passes.typedSound.schema.names
  have serviceNames := passes.typedSound.schema.indexed.services.nodup
  rw [gains.pending] at waits
  obtain ⟨added, isAdded, waits⟩ := List.mem_flatMap.mp waits
  obtain ⟨⟨document, found⟩, isPair, declares⟩ := Pairing.exists_of_mem_right each isAdded
  obtain ⟨isDocument, isFound⟩ := mem_definitions.mp isPair
  have belongs := belongs_of_declares isFound declares waits
  refine ⟨⟨fun other isOther sameName fields isFields => ?_,
    fun service isService method isMethod isCalled => ?_⟩, document, isDocument, belongs.written⟩
  · obtain ⟨declared, isDeclared, isOwner, among⟩ := belongs.field
    obtain ⟨types, isTypes, front, -⟩ := gains.types
    have isType := front.subset (List.mem_flatMap.mpr ⟨_, isAdded, isDeclared⟩)
    have present : declared ∈ typed.schema.types := isTypes ▸ List.mem_append_right _ isType
    have same := List.inj_on_of_nodup_map names isOther present (sameName.trans isOwner.symm)
    exact among fields (same ▸ isFields)
  · obtain ⟨declared, isDeclared, sameName, distinct, known, isKnown, sameMethod, travels, among⟩ :=
      belongs.argument _ _ isCalled
    have present : declared ∈ typed.schema.services := by
      rw [gains.services]
      exact List.mem_append_right _ (List.mem_flatMap.mpr ⟨_, isAdded, isDeclared⟩)
    obtain rfl := List.inj_on_of_nodup_map serviceNames present isService sameName
    obtain rfl := List.inj_on_of_nodup_map distinct isKnown isMethod sameMethod
    exact ⟨travels, among⟩

end Routing

section Completion

variable {linking later : Linking}

/-- A declared type with fields was there before, with its fields up to their defaults.

Proof: without defaults the later types are the earlier ones and some typedefs behind them. A
typedef has no fields, so the declared type is one of the earlier ones. -/
theorem Linking.Completes.exists_fields (completes : linking.Completes later)
    {declared : TypeDeclaration} (isDeclared : declared ∈ later.schema.types) {fields : List Field}
    (isFields : declared.fields? = some fields) :
    ∃ before ∈ linking.schema.types, before.name = declared.name ∧
      ∃ others, before.fields? = some others ∧
        others.map (·.bare) = fields.map (·.bare) := by
  obtain ⟨typedefs, same, noFields⟩ := completes.types
  have bareFields : declared.bare.fields? = some (fields.map (·.bare)) := by
    rw [declared.fields?_bare, isFields]
    rfl
  have member : declared.bare ∈ later.schema.types.map (·.bare) := List.mem_map_of_mem isDeclared
  rw [same] at member
  rcases List.mem_append.mp member with known | added
  · obtain ⟨before, isBefore, sameBare⟩ := List.mem_map.mp known
    have sameName := congrArg TypeDeclaration.name sameBare
    rw [TypeDeclaration.name_bare, TypeDeclaration.name_bare] at sameName
    rw [← sameBare, before.fields?_bare] at bareFields
    obtain ⟨others, isOthers, sameFields⟩ := Option.map_eq_some_iff.mp bareFields
    exact ⟨before, isBefore, sameName, others, isOthers, sameFields⟩
  · simp [noFields _ added] at bareFields

/-- Fields have the ids and types of those that are the same up to their defaults. -/
theorem PendingDefault.FitsAmong.of_bare {pending : PendingDefault} {fields others : List Field}
    (among : pending.FitsAmong others) (same : others.map (·.bare) = fields.map (·.bare)) :
    pending.FitsAmong fields := by
  intro field isField sameId
  have member : field.bare ∈ fields.map (·.bare) := List.mem_map_of_mem isField
  rw [← same] at member
  obtain ⟨other, isOther, sameField⟩ := List.mem_map.mp member
  have otherId : other.bare.id = field.bare.id := congrArg Field.id sameField
  have otherType : other.bare.type = field.bare.type := congrArg Field.type sameField
  exact otherType.symm.trans (among other isOther (otherId.trans sameId))

/-- A default stays routed.

Proof: declarations with fields, services and methods of the later state were there before, up to
defaults, and being routed does not look at defaults. -/
theorem Linking.Routed.completes {pending : PendingDefault} (routed : linking.Routed pending)
    (completes : linking.Completes later) : later.Routed pending where
  field declared isDeclared named fields isFields := by
    obtain ⟨before, isBefore, sameName, others, isOthers, same⟩ :=
      completes.exists_fields isDeclared isFields
    exact (routed.field before isBefore (sameName.trans named) others isOthers).of_bare same
  argument service isService method isMethod isCalled := by
    obtain ⟨before, isBefore, sameService⟩ := completes.exists_service isService
    obtain ⟨old, isOld, sameMethod⟩ := Service.exists_method sameService isMethod
    have serviceName : before.bare.name = service.bare.name := congrArg Service.name sameService
    have methodName : old.bare.name = method.bare.name := congrArg Method.name sameMethod
    have travels : old.bare.argumentsStruct = method.bare.argumentsStruct :=
      congrArg Method.argumentsStruct sameMethod
    have isCalledThere : pending.method = some (before.bare.name, old.bare.name) := by
      rw [serviceName, methodName]
      exact isCalled
    obtain ⟨isOwner, among⟩ := routed.argument before isBefore old isOld isCalledThere
    exact ⟨isOwner.trans travels, among.of_bare (congrArg Method.arguments sameMethod)⟩

end Completion

end SchemaCodec
