import SchemaCodec.Proofs.DefinedNames
import SchemaCodec.Proofs.SeenOnce

/-!
# What linking adds

A step of linking adds declarations and services and puts defaults aside. On the way it may add
typedefs of the documents, each with the type that its own document gives it. It adds nothing else,
and it changes nothing that is there. Fields are linked with the types that their references stand
for.
-/

namespace SchemaCodec

open Linking

/-- What linking adds to a state, typedefs apart. -/
structure Additions where
  types : List TypeDeclaration := []
  services : List Service := []
  pending : List PendingDefault := []

namespace Additions

/-- What is added first and what is added behind it. -/
def append (first second : Additions) : Additions :=
  ⟨first.types ++ second.types, first.services ++ second.services, first.pending ++ second.pending⟩

/-- All of several additions, in order. -/
def all (several : List Additions) : Additions :=
  ⟨several.flatMap (·.types), several.flatMap (·.services), several.flatMap (·.pending)⟩

end Additions

namespace Scope

variable {scope : Scope}

/-- A typedef has the type that its reference stands for in the document that defines it. -/
def DeclaresTypedef (scope : Scope) (declared : TypeDeclaration) : Prop :=
  ∃ home ∈ scope.documents, ∃ definition, .typedef definition ∈ home.definitions ∧
    ∃ target, scope.resolve home definition.target = .ok target ∧
      declared = .typedef ⟨home.qualified definition.name, target⟩

/-- A state gains some additions, in order, and typedefs of the documents in between. Typedefs are
let in because linking any definition may link the typedefs that it names first; all else that is
added is known from the definition. -/
structure Gains (scope : Scope) (linking later : Linking) (added : Additions) : Prop where
  types : ∃ types, later.schema.types = linking.schema.types ++ types ∧
    added.types.Sublist types ∧
      ∀ declared ∈ types, declared ∈ added.types ∨ scope.DeclaresTypedef declared
  services : later.schema.services = linking.schema.services ++ added.services
  constants : later.schema.constants = linking.schema.constants
  pending : later.pending = linking.pending ++ added.pending
  /-- What is declared stays declared. -/
  declaration? : ∀ {name declared}, linking.schema.declaration? name = some declared →
    later.schema.declaration? name = some declared
  indexed : linking.schema.Indexed → later.schema.Indexed

section Gains

variable {linking between later : Linking} {first second : Additions}

/-- A state that stays the same gains nothing. -/
theorem Gains.refl : scope.Gains linking linking {} where
  types := ⟨[], by simp, .refl _, by simp⟩
  services := by simp
  constants := rfl
  pending := by simp
  declaration? := id
  indexed := id

/-- What is gained in two steps is gained in order. -/
theorem Gains.trans (before : scope.Gains linking between first)
    (behind : scope.Gains between later second) :
    scope.Gains linking later (first.append second) where
  types := by
    obtain ⟨front, isFront, among, origin⟩ := before.types
    obtain ⟨back, isBack, amongBack, originBack⟩ := behind.types
    refine ⟨front ++ back, ?_, among.append amongBack, fun declared member => ?_⟩
    · rw [isBack, isFront, List.append_assoc]
    · rcases List.mem_append.mp member with isFirst | isSecond
      · exact (origin declared isFirst).imp_left (List.mem_append_left _)
      · exact (originBack declared isSecond).imp_left (List.mem_append_right _)
  services := by rw [behind.services, before.services, List.append_assoc]; rfl
  constants := behind.constants.trans before.constants
  pending := by rw [behind.pending, before.pending, List.append_assoc]; rfl
  declaration? := behind.declaration? ∘ before.declaration?
  indexed := behind.indexed ∘ before.indexed

/-- What is gained in front of typedefs alone. -/
theorem Gains.before (gains : scope.Gains linking between first)
    (typedefs : scope.Gains between later {}) : scope.Gains linking later first := by
  have both := gains.trans typedefs
  simpa [Additions.append] using both

/-- What is gained behind typedefs alone. -/
theorem Gains.after (typedefs : scope.Gains linking between {})
    (gains : scope.Gains between later second) : scope.Gains linking later second := by
  have both := typedefs.trans gains
  simpa [Additions.append] using both

/-- A type that is added is gained. -/
theorem gains_insertType {document : Document} {span : Span} {declared : TypeDeclaration}
    {result : Unit} (ran : insertType document span declared linking = .ok (result, later)) :
    scope.Gains linking later { types := [declared] } := by
  obtain ⟨free, rfl⟩ := insertType_eq_ok.mp ran
  exact ⟨⟨[declared], rfl, .refl _, by simp⟩, by simp [Schema.addType], rfl, by simp,
    Schema.declaration?_addType, (·.addType free)⟩

end Gains

section Typedefs

variable {document : Document} {linking later : Linking}

/-- A typedef of the documents that is added is no gain of its own. -/
theorem gains_insertTypedef {span : Span} {declared : TypeDeclaration} {result : Unit}
    (ran : insertType document span declared linking = .ok (result, later))
    (typedefs : scope.DeclaresTypedef declared) : scope.Gains linking later {} := by
  obtain ⟨free, rfl⟩ := insertType_eq_ok.mp ran
  exact ⟨⟨[declared], rfl, List.nil_sublist _, by simpa using typedefs⟩, by simp [Schema.addType],
    rfl, by simp, Schema.declaration?_addType, (·.addType free)⟩

/-- Linking a typedef adds typedefs of the documents. The induction is on the bound: those that it
leads to are linked with a smaller one.

Proof: a typedef that is there already adds nothing. Otherwise the typedef that it leads to directly
is linked first, if there is one, and then the typedef itself is inserted behind what this gained.
-/
theorem gains_linkTypedef (member : document ∈ scope.documents) {bound : Nat}
    {above : List String} {definition : TypedefDefinition}
    (isDefinition : .typedef definition ∈ document.definitions) {result : Unit}
    (ran : scope.linkTypedef bound above document definition linking = .ok (result, later)) :
    scope.Gains linking later {} := by
  induction bound using Nat.strongRecOn generalizing above document definition linking later with
  | ind bound inductionHypothesis =>
    rcases linkTypedef_eq_ok.mp ran with ⟨_, -, rfl⟩ |
      ⟨-, -, fewer, rfl, target, between, resolved, direct, added⟩
    · exact .refl
    · have behind := gains_insertTypedef added
        ⟨document, member, definition, isDefinition, target, resolved, rfl⟩
      unfold LinksDirectly at direct
      cases named : scope.directTypedef? document definition.target with
      | some next =>
        simp only [named] at direct
        obtain ⟨isHome, isNext⟩ := mem_of_directTypedef? member named
        exact (inductionHypothesis fewer fewer.lt_succ_self isHome isNext direct).after behind
      | none =>
        simp only [named] at direct
        exact direct ▸ behind

/-- A reference that is linked adds typedefs of the documents. -/
theorem gains_linkReference (member : document ∈ scope.documents) {reference : TypeReference}
    {type : DataType}
    (ran : scope.linkReference document reference linking = .ok (type, later)) :
    scope.resolve document reference = .ok type ∧ scope.Gains linking later {} := by
  obtain ⟨resolved, direct⟩ := linkReference_eq_ok.mp ran
  refine ⟨resolved, ?_⟩
  unfold LinksDirectly at direct
  cases named : scope.directTypedef? document reference with
  | some next =>
    simp only [named] at direct
    obtain ⟨isHome, isNext⟩ := mem_of_directTypedef? member named
    exact gains_linkTypedef isHome isNext direct
  | none =>
    simp only [named] at direct
    exact direct ▸ .refl

end Typedefs

/-- A field follows its definition. A default is not there yet. -/
structure FieldFollows (scope : Scope) (document : Document) (allOptional : Bool)
    (definition : FieldDefinition) (field : Field) : Prop where
  id : field.id = definition.id
  name : field.name = definition.name
  type : scope.resolve document definition.type = .ok field.type
  requiredness : field.requiredness = if allOptional then .optional else definition.requiredness
  default : field.default = none

/-- Fields follow their definitions, which have each id and each name once. -/
structure FieldsFollow (scope : Scope) (document : Document) (allOptional : Bool)
    (definitions : List FieldDefinition) (fields : List Field) : Prop where
  each : List.Forall₂ (scope.FieldFollows document allOptional) definitions fields
  ids : (definitions.map (·.id)).Nodup
  names : (definitions.map (·.name)).Nodup

/-- The default of a field that waits for its conversion. -/
def awaited (document : Document) (owner : FieldOwner) (definition : FieldDefinition)
    (type : DataType) : Option PendingDefault :=
  if owner.hasDefaults then
    definition.default.map fun literal =>
      { document, owner := owner.name, method := owner.method, id := definition.id,
        name := definition.name, type, literal, span := definition.span }
  else none

/-- The defaults of fields that wait for their conversion. -/
def allAwaited (document : Document) (owner : FieldOwner) (definitions : List FieldDefinition)
    (fields : List Field) : List PendingDefault :=
  (definitions.zip fields).flatMap fun pair => (awaited document owner pair.1 pair.2.type).toList

section Fields

variable {document : Document} {linking later : Linking}

/-- A default that counts is put aside.

Proof: by whether the field has a default, and whether its owner lets it count. What counts is put
aside and nothing else changes; in the other cases the state stays as it is. -/
theorem gains_putDefaultAside {owner : FieldOwner} {definition : FieldDefinition} {type : DataType}
    {result : Unit}
    (ran : putDefaultAside document owner definition type linking = .ok (result, later)) :
    scope.Gains linking later { pending := (awaited document owner definition type).toList } := by
  unfold putDefaultAside at ran
  unfold awaited
  cases isDefault : definition.default with
  | none =>
    simp only [isDefault] at ran
    obtain ⟨-, rfl⟩ := pure_eq_ok.mp ran
    simpa using Gains.refl
  | some literal =>
    simp only [isDefault] at ran
    split at ran
    · next counts =>
      obtain rfl := putAside_eq_ok.mp ran
      simp only [counts, if_true, Option.map_some]
      exact ⟨⟨[], by simp, .refl _, by simp⟩, by simp, rfl, rfl, id, id⟩
    · next ignored =>
      obtain ⟨-, rfl⟩ := pure_eq_ok.mp ran
      simpa [ignored] using Gains.refl

/-- Fields that are linked follow their definitions, none of which has an id or a name from before;
their defaults are put aside. -/
theorem gains_linkFields (member : document ∈ scope.documents) {owner : FieldOwner}
    {definitions : List FieldDefinition} {ids : List Int16} {names : List String}
    {fields : List Field}
    (ran : scope.linkFields document owner definitions ids names linking = .ok (fields, later)) :
    List.Forall₂ (scope.FieldFollows document owner.allOptional) definitions fields ∧
      SeenOnce (·.id) ids definitions ∧ SeenOnce (·.name) names definitions ∧
      scope.Gains linking later { pending := allAwaited document owner definitions fields } := by
  induction definitions generalizing ids names fields linking with
  | nil =>
    obtain ⟨rfl, rfl⟩ := pure_eq_ok.mp ran
    exact ⟨.nil, seenOnce_nil, seenOnce_nil, .refl⟩
  | cons definition rest inductionHypothesis =>
    simp only [linkFields, bind_eq_ok, failIf_eq_ok, pure_eq_ok] at ran
    obtain ⟨_, _, ⟨newId, rfl⟩, _, _, ⟨newName, rfl⟩, type, referred, reference, _, waiting,
      default, linked, last, others, rfl, rfl⟩ := ran
    obtain ⟨resolved, first⟩ := gains_linkReference member reference
    have second : scope.Gains referred waiting _ := gains_putDefaultAside default
    obtain ⟨each, idsDistinct, namesDistinct, third⟩ := inductionHypothesis others
    exact ⟨.cons ⟨rfl, rfl, resolved, rfl, rfl⟩ each, seenOnce_cons.mpr ⟨newId, idsDistinct⟩,
      seenOnce_cons.mpr ⟨newName, namesDistinct⟩, (first.after second).trans third⟩

/-- All fields of an owner follow their definitions; their defaults are put aside. -/
theorem gains_linkAllFields (member : document ∈ scope.documents) {owner : FieldOwner}
    {definitions : List FieldDefinition} {fields : List Field}
    (ran : scope.linkFields document owner definitions [] [] linking = .ok (fields, later)) :
    scope.FieldsFollow document owner.allOptional definitions fields ∧
      scope.Gains linking later { pending := allAwaited document owner definitions fields } := by
  obtain ⟨each, ids, names, gains⟩ := gains_linkFields member ran
  exact ⟨⟨each, seenOnce_start.mp ids, seenOnce_start.mp names⟩, gains⟩

end Fields

end Scope

end SchemaCodec
