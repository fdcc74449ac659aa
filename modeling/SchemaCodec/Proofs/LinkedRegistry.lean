import SchemaCodec.Proofs.ConstantSoundness

/-!
# The schema that linking returns

All definitions are linked first, which registers every type and service that the documents define.
The constants and defaults that follow only advance. So each name in the schema is registered with
its very kind, ids and members are distinct, and every chain of typedefs ends.
-/

namespace SchemaCodec

open Linking

namespace Scope

variable {scope : Scope}

/-- What a definition declares is registered. -/
structure Registered (document : Document) (found : Definition) (schema : Schema) : Prop where
  type : ∀ {type}, found.type? document = some type →
    schema.resolve (document.qualified found.name) = .ok type
  service : ∀ {definition}, found = .service definition →
    ∃ declared, schema.service (document.qualified definition.name) = .ok declared

/-- All that a document declares is registered. -/
def AllRegistered (document : Document) (schema : Schema) : Prop :=
  ∀ found ∈ document.definitions, Registered document found schema

/-- What is registered stays registered. -/
theorem Registered.grow {document : Document} {found : Definition} {schema later : Schema}
    (registered : Registered document found schema) (grows : schema.Grows later) :
    Registered document found later where
  type isType := grows.resolve (registered.type isType)
  service isService := by
    obtain ⟨declared, isDeclared⟩ := registered.service isService
    exact grows.service isDeclared

section Definitions

variable {linking later : Linking}

/-- A definition that is linked is registered.

Proof: by the form of the definition, each with what is known of linking it. A definition of a type
is registered as that type, a service as a service, and a constant as neither in this pass. -/
theorem advance_linkDefinition {document : Document} (member : document ∈ scope.documents)
    {found : Definition} {result : Unit}
    (ran : scope.linkDefinition document found linking = .ok (result, later)) :
    scope.Advance linking later ∧
      (linking.schema.Indexed → Registered document found later.schema) := by
  cases found with
  | constant definition =>
    obtain ⟨-, rfl⟩ := pure_eq_ok.mp ran
    exact ⟨.refl, fun _ => ⟨by simp [Definition.type?], by simp⟩⟩
  | typedef definition =>
    obtain ⟨advance, registered⟩ := advance_linkTypedef member ran
    refine ⟨advance, fun indexed => ⟨fun isType => ?_, by simp⟩⟩
    exact Option.some.inj isType ▸ registered (advance.indexed indexed)
  | enum definition =>
    obtain ⟨advance, registered⟩ := advance_linkEnum ran
    exact ⟨advance, fun _ => ⟨fun isType => Option.some.inj isType ▸ registered, by simp⟩⟩
  | struct definition =>
    obtain ⟨advance, registered⟩ := advance_linkStruct member ran
    exact ⟨advance, fun _ => ⟨fun isType => Option.some.inj isType ▸ registered, by simp⟩⟩
  | union definition =>
    obtain ⟨advance, registered⟩ := advance_linkUnion member ran
    exact ⟨advance, fun _ => ⟨fun isType => Option.some.inj isType ▸ registered, by simp⟩⟩
  | exception definition =>
    obtain ⟨advance, registered⟩ := advance_linkStruct member ran
    exact ⟨advance, fun _ => ⟨fun isType => Option.some.inj isType ▸ registered, by simp⟩⟩
  | service definition =>
    obtain ⟨advance, registered⟩ := advance_linkService member ran
    refine ⟨advance, fun _ => ⟨by simp [Definition.type?], fun same => ?_⟩⟩
    exact Definition.service.inj same ▸ registered

/-- Steps in a row advance, and what each of them has done stays done.

Proof: induction on the row. The index may be trusted at each step since the steps in front of it
advance, and what a step has done is kept by the growth of those behind it. -/
theorem advance_forM {step : α → LinkM Unit} {items : List α} {done : α → Schema → Prop}
    (stays : ∀ {item schema later}, done item schema → schema.Grows later → done item later)
    (each : ∀ item ∈ items, ∀ {linking result later}, step item linking = .ok (result, later) →
      scope.Advance linking later ∧ (linking.schema.Indexed → done item later.schema))
    {result : Unit} (ran : items.forM step linking = .ok (result, later)) :
    scope.Advance linking later ∧
      (linking.schema.Indexed → ∀ item ∈ items, done item later.schema) := by
  induction items generalizing linking with
  | nil =>
    obtain ⟨-, rfl⟩ := pure_eq_ok.mp ran
    exact ⟨.refl, by simp⟩
  | cons item rest inductionHypothesis =>
    obtain ⟨between, here, there⟩ := forM_cons_eq_ok.mp ran
    obtain ⟨first, isDone⟩ := each item List.mem_cons_self here
    obtain ⟨second, areDone⟩ :=
      inductionHypothesis (fun item member => each item (List.mem_cons_of_mem _ member)) there
    refine ⟨first.trans second, fun indexed => List.forall_mem_cons.mpr ⟨?_, ?_⟩⟩
    · exact stays (isDone indexed) second.grows
    · exact areDone (first.indexed indexed)

/-- After the definitions of all documents, all of them are registered. -/
theorem advance_linkDefinitions {result : Unit}
    (ran : (scope.documents.forM fun document =>
      document.definitions.forM (scope.linkDefinition document)) linking = .ok (result, later)) :
    scope.Advance linking later ∧ (linking.schema.Indexed →
      ∀ document ∈ scope.documents, AllRegistered document later.schema) := by
  refine advance_forM ?_ ?_ ran
  · intro document schema later done grows found isFound
    exact (done found isFound).grow grows
  · intro document member linking result later ran
    exact advance_forM Registered.grow (fun found _ _ _ _ => advance_linkDefinition member) ran

/-- After the definitions of all documents, the state is sound. -/
theorem sound_of_linkDefinitions {result : Unit}
    (ran : (scope.documents.forM fun document =>
      document.definitions.forM (scope.linkDefinition document)) {} = .ok (result, later)) :
    scope.Sound later :=
  (advance_linkDefinitions ran).1.sound ⟨.empty, by simp⟩

end Definitions

section Everything

variable {linking later : Linking}

/-- Linking everything from a sound state leaves a sound state in which all that the documents
declare is registered. -/
theorem sound_of_linkAll {result : Unit} (sound : scope.Sound linking)
    (ran : scope.linkAll linking = .ok (result, later)) :
    scope.Sound later ∧ ∀ document ∈ scope.documents, AllRegistered document later.schema := by
  simp only [linkAll, bind_eq_ok] at ran
  obtain ⟨_, first, definitions, _, second, constants, _, _, met, defaults⟩ := ran
  obtain ⟨rfl, rfl⟩ := Prod.mk.inj (Except.ok.inj met)
  obtain ⟨before, registered⟩ := advance_linkDefinitions definitions
  have between := advances_linkConstants _ _ _ constants
  have isSound := between.sound (before.sound sound)
  have behind := advances_linkDefaults isSound.pending _ _ _ defaults
  refine ⟨behind.sound isSound, fun document member found isFound => ?_⟩
  exact (registered sound.schema.indexed document member found isFound).grow
    (between.grows.trans behind.grows)

end Everything

end Scope

/-- A schema that keeps all promises: names, ids and members are distinct, every chain of typedefs
ends, and every name is registered with its very kind. -/
def Schema.Linked (schema : Schema) : Prop :=
  schema.WellFormed schema.Closed fun name => ∃ declared, schema.service name = .ok declared

namespace Scope

variable {scope : Scope}

/-- A type that the documents define, in all of its names, is registered where all that they declare
is. -/
theorem Offers.closed {type : DataType} (offered : scope.Offers type) {schema : Schema}
    (registered : ∀ document ∈ scope.documents, AllRegistered document schema) :
    schema.Closed type := by
  refine offered.imp ?_
  rintro name type ⟨home, isHome, found, isFound, rfl, isType⟩
  exact (registered home isHome found isFound).type isType

/-- A sound schema in which all that the documents declare is registered keeps all promises. -/
theorem Sound.linked {linking : Linking} (sound : scope.Sound linking)
    (registered : ∀ document ∈ scope.documents, AllRegistered document linking.schema) :
    linking.schema.Linked := by
  refine sound.schema.imp (fun offered => offered.closed registered) ?_
  rintro name ⟨home, isHome, definition, isDefinition, rfl⟩
  exact (registered home isHome _ isDefinition).service rfl

end Scope

/-- The schema that linking returns keeps all promises. -/
theorem linked_of_link {documents : List Document} {schema : Schema}
    (linked : link documents = .ok schema) : schema.Linked := by
  unfold link at linked
  obtain ⟨scope, -, linked⟩ := Outcome.bind_eq_ok.mp linked
  obtain ⟨⟨_, linking⟩, ran, same⟩ := Outcome.bind_eq_ok.mp linked
  obtain rfl := Except.ok.inj same
  obtain ⟨sound, registered⟩ := Scope.sound_of_linkAll ⟨.empty, by simp⟩ ran
  exact sound.linked registered

namespace Schema.Linked

variable {schema : Schema}

/-- The end of a chain of typedefs is registered when its start is. -/
theorem closed_of_canonicalWithin (linked : schema.Linked) {start type behind : DataType}
    {steps : Nat} (closed : schema.Closed type)
    (followed : schema.canonicalWithin start steps type = .ok behind) : schema.Closed behind := by
  induction steps generalizing type with
  | zero => simp [canonicalWithin] at followed
  | succ steps inductionHypothesis =>
    cases type with
    | typedef name =>
      simp only [canonicalWithin, Outcome.bind_eq_ok] at followed
      obtain ⟨target, found, followed⟩ := followed
      obtain ⟨declared, isDeclared, rfl⟩ := typedefTarget_eq_ok.mp found
      have wellFormed := linked.types _ (mem_of_declaration? isDeclared)
      exact inductionHypothesis wellFormed followed
    | _ =>
      obtain rfl := Except.ok.inj followed
      exact closed

/-- A type that is registered stands for one that is registered as well, behind all typedefs. -/
theorem canonical (linked : schema.Linked) {type : DataType} (closed : schema.Closed type) :
    ∃ behind, schema.canonical type = .ok behind ∧ schema.Closed behind := by
  cases type with
  | typedef name =>
    obtain ⟨behind, ends⟩ := linked.chains closed
    have followed := ends (.typedef name)
    exact ⟨behind, followed, linked.closed_of_canonicalWithin closed followed⟩
  | _ => exact ⟨_, rfl, closed⟩

/-- The fields of a struct have distinct ids and types that are registered. -/
theorem struct (linked : schema.Linked) {name : String} {declared : StructType}
    (named : schema.structType name = .ok declared) :
    FieldsWellFormed schema.Closed declared.fields :=
  linked.types _ (mem_of_declaration? (structType_eq_ok.mp named))

/-- The fields of a union have distinct ids and types that are registered. -/
theorem union (linked : schema.Linked) {name : String} {declared : UnionType}
    (named : schema.unionType name = .ok declared) :
    FieldsWellFormed schema.Closed declared.fields :=
  linked.types _ (mem_of_declaration? (unionType_eq_ok.mp named))

/-- The members of an enum have distinct names. -/
theorem enum (linked : schema.Linked) {name : String} {declared : EnumType}
    (named : schema.enumType name = .ok declared) : (declared.members.map (·.name)).Nodup :=
  linked.types _ (mem_of_declaration? (enumType_eq_ok.mp named))

end Schema.Linked

namespace Schema

variable {schema : Schema} {name : String}

/-- A struct that is registered is found. -/
theorem exists_structType (closed : schema.Closed (.struct name)) :
    ∃ declared, schema.structType name = .ok declared := by
  obtain ⟨declared, found, same⟩ := resolve_eq_ok.mp closed
  cases declared with
  | struct declared => exact ⟨declared, structType_eq_ok.mpr found⟩
  | _ => simp [TypeDeclaration.type] at same

/-- A union that is registered is found. -/
theorem exists_unionType (closed : schema.Closed (.union name)) :
    ∃ declared, schema.unionType name = .ok declared := by
  obtain ⟨declared, found, same⟩ := resolve_eq_ok.mp closed
  cases declared with
  | union declared => exact ⟨declared, unionType_eq_ok.mpr found⟩
  | _ => simp [TypeDeclaration.type] at same

/-- An enum that is registered is found. -/
theorem exists_enumType (closed : schema.Closed (.enum name)) :
    ∃ declared, schema.enumType name = .ok declared := by
  obtain ⟨declared, found, same⟩ := resolve_eq_ok.mp closed
  cases declared with
  | enum declared => exact ⟨declared, enumType_eq_ok.mpr found⟩
  | _ => simp [TypeDeclaration.type] at same

end Schema

end SchemaCodec
