import SchemaCodec.Proofs.Materialisation
import SchemaCodec.Proofs.PartsOfScopes
import SchemaCodec.Proofs.TypesOfParts

/-!
# Linking the definitions of a part

Each definition of a part declares in it what it declares among all documents. So whatever the first
pass leaves for the part, it leaves for all documents as well, and nothing leads out of the part.
-/

namespace SchemaCodec

open Linking

/-- What a state has is among what another one has, up to constants. -/
structure Linking.Within (linking other : Linking) : Prop where
  types : linking.schema.types ⊆ other.schema.types
  services : linking.schema.services ⊆ other.schema.services
  pending : linking.pending ⊆ other.pending

/-- A schema survives in another one that has its types: each is found there under its name. -/
theorem Linking.Within.survives {linking other : Linking} (within : linking.Within other)
    (indexed : linking.schema.Indexed) (alsoIndexed : other.schema.Indexed) :
    linking.schema.SurvivesIn other.schema where
  declaration? {name declared} found := by
    obtain ⟨isDeclared, named⟩ := indexed.declaration?_eq_some.mp found
    have isThere := alsoIndexed.declaration?_eq_some.mpr ⟨within.types isDeclared, named⟩
    exact ⟨declared, isThere, rfl⟩
  size := (List.subperm_of_subset indexed.types.nodup.of_map within.types).length_le

namespace Scope

variable {scope part : Scope} {document : Document} {found : Definition}
  {typed settled later again : Linking}

section Definitions

variable (lawful : scope.Lawful) (isPart : PartOf part.documents scope.documents)

include lawful isPart

/-- A definition of the part declares what it declares among all documents. -/
theorem Lawful.declares_part (member : document ∈ part.documents) {added : Additions}
    (declares : part.Declares document found added) : scope.Declares document found added := by
  have moved := (lawful.orderly.counterparts_part isPart).declares member
    (lawful.orderly.ofPart isPart) lawful declares
  have unmoved : added.pending.map (·.moved id) = added.pending := List.map_id _
  rwa [Additions.moved, unmoved] at moved

variable (passes : scope.Passes typed settled later)

include passes

/-- What a definition of the part declares is there among all documents. -/
theorem Lawful.among_of_declares_part (member : document ∈ part.documents)
    (isFound : found ∈ document.definitions) {added : Additions}
    (declares : part.Declares document found added) :
    added.types ⊆ typed.schema.types ∧ added.services ⊆ typed.schema.services ∧
      added.pending ⊆ typed.pending := by
  obtain ⟨others, alsoDeclares, among⟩ :=
    passes.exists_declares (isPart.among.subset member) isFound
  rwa [(lawful.declares_part isPart member declares).unique alsoDeclares]

/-- What the first pass leaves for the part, it leaves for all documents.

Proof: what a definition of the part adds is among what all definitions add, because it declares the
same in both scopes. The types of the part are these and its typedefs, which are registered for all
documents as well. -/
theorem Lawful.within_part
    (ran : (part.documents.forM fun document =>
      document.definitions.forM (part.linkDefinition document)) {} = .ok ((), again)) :
    again.Within typed := by
  obtain ⟨additions, each, gains⟩ := gains_linkDefinitions ran
  have among {added : Additions} (isAdded : added ∈ additions) :
      added.types ⊆ typed.schema.types ∧ added.services ⊆ typed.schema.services ∧
        added.pending ⊆ typed.pending := by
    obtain ⟨⟨document, found⟩, isPair, declares⟩ := Pairing.exists_of_mem_right each isAdded
    obtain ⟨member, isFound⟩ := mem_definitions.mp isPair
    exact lawful.among_of_declares_part isPart passes member isFound declares
  refine ⟨fun declared isDeclared => ?_, fun service isService => ?_, fun pending waits => ?_⟩
  · rcases ((lawful.orderly.ofPart isPart).mem_types_iff ran gains).mp isDeclared with
      isAdded | isTypedef
    · obtain ⟨added, isAddition, inside⟩ := List.mem_flatMap.mp isAdded
      exact (among isAddition).1 inside
    · obtain ⟨all, alsoEach, alsoGains⟩ := passes.gains
      apply (lawful.orderly.mem_types_iff passes.definitions alsoGains).mpr
      exact .inr ((lawful.orderly.counterparts_part isPart).declaresTypedef isTypedef)
  · rw [gains.services] at isService
    obtain ⟨added, isAddition, inside⟩ := List.mem_flatMap.mp isService
    exact (among isAddition).2.1 inside
  · rw [gains.pending] at waits
    obtain ⟨added, isAddition, inside⟩ := List.mem_flatMap.mp waits
    exact (among isAddition).2.2 inside

end Definitions

section Closure

variable (ran : (scope.documents.forM fun document =>
  document.definitions.forM (scope.linkDefinition document)) {} = .ok ((), typed))

include ran

/-- Behind the first pass the schema keeps all promises. -/
theorem linked_of_linkDefinitions : typed.schema.Linked :=
  (sound_of_linkDefinitions ran).linked ((advance_linkDefinitions ran).2 .empty)

/-- Behind the first pass, the types for which references stand are registered. -/
theorem closed_of_resolve (member : document ∈ scope.documents) {reference : TypeReference}
    {type : DataType} (resolved : scope.resolve document reference = .ok type) :
    typed.schema.Closed type :=
  (offers_of_resolve member resolved).closed ((advance_linkDefinitions ran).2 .empty)

omit ran in
/-- The type of a default that waits for a field is what the reference of the field stands for. -/
theorem FieldsFollow.exists_resolve {allOptional : Bool} {owner : FieldOwner}
    {definitions : List FieldDefinition} {fields : List Field} {pending : PendingDefault}
    (follow : scope.FieldsFollow document allOptional definitions fields)
    (waits : pending ∈ allAwaited document owner definitions fields) :
    ∃ reference, scope.resolve document reference = .ok pending.type := by
  obtain ⟨definition, field, beside, isAwaited⟩ := mem_allAwaited.mp waits
  obtain ⟨literal, -, rfl⟩ := awaited_eq_some.mp isAwaited
  exact ⟨definition.type, (List.forall₂_zip follow.each beside).type⟩

/-- The type of a default that waits behind the first pass is registered. -/
theorem closed_of_waiting {pending : PendingDefault} (waits : pending ∈ typed.pending) :
    typed.schema.Closed pending.type := by
  obtain ⟨document, member, found, isFound, added, declares, waits⟩ :=
    exists_declares_of_waiting ran waits
  suffices resolved : ∃ reference, scope.resolve document reference = .ok pending.type by
    obtain ⟨reference, resolved⟩ := resolved
    exact closed_of_resolve ran member resolved
  cases declares with
  | constant | typedef | enum => simp at waits
  | struct definition fields follow | exception definition fields follow
  | union definition fields follow => exact follow.exists_resolve waits
  | service definition parent methods extended follow =>
    simp only [Additions.append, List.append_nil] at waits
    obtain ⟨function, -, method, follows, waits⟩ := follow.exists_awaited waits
    exact follows.arguments.exists_resolve waits

end Closure

end Scope

end SchemaCodec
