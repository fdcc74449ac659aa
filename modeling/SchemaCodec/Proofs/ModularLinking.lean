import SchemaCodec.Proofs.ConstantsOfParts

/-!
# Linking is modular

Documents that link as part of some others link by themselves, as soon as all that they include is
among them. All that they define is linked to the same entries: no document influences how another
one is linked that does not include it, directly or not.
-/

namespace SchemaCodec

open Linking

/-- A schema holds the entries of another one under all names that a definition declares. The
entries are there in both and are the same ones, with their defaults and with the structs that
methods bring along. -/
structure Schema.SharesEntries (schema other : Schema) (document : Document) (found : Definition) :
    Prop where
  types : ∀ name ∈ found.typeNames document, ∃ entry,
    schema.declaration? name = some entry ∧ other.declaration? name = some entry
  services : ∀ name ∈ found.serviceNames document, ∃ entry,
    schema.service name = .ok entry ∧ other.service name = .ok entry
  constants : ∀ name ∈ found.constantNames document, ∃ entry,
    schema.constant? name = some entry ∧ other.constant? name = some entry

namespace Scope

variable {scope part : Scope} {document : Document} {found : Definition}
  {typed settled later again resettled last : Linking} {supplied kept : Supply}

section Defaults

variable (lawful : scope.Lawful) (isPart : PartOf part.documents scope.documents)
  (passes : scope.Passes typed settled later) (partPasses : part.Passes again resettled last)

include lawful isPart passes partPasses

/-- A default whose owner has a name that a definition of the part takes waits in the part. -/
theorem Passes.waits_part (member : document ∈ part.documents)
    (isFound : found ∈ document.definitions) {pending : PendingDefault}
    (waits : pending ∈ typed.pending) (taken : pending.owner ∈ found.takenNames document) :
    pending ∈ again.pending := by
  obtain ⟨added, declares, -, -, known⟩ := partPasses.exists_declares member isFound
  apply known
  exact lawful.orderly.waits_of_owner passes.definitions (isPart.among.subset member) isFound
    (lawful.declares_part isPart member declares) waits taken

variable (filled : scope.Filled typed later supplied) (among : kept ⊆ supplied)
  (covers : ∀ pair ∈ supplied, pair.1 ∈ again.pending → pair ∈ kept)

include filled among covers

/-- A declared type of the part is supplied alike by the defaults of the part.

Proof: a type of the part is declared there or is a typedef, which no default changes. The defaults
that are addressed to its fields wait in the part as well, because its name is one of the
declaration, so the part supplies each of them. -/
theorem Filled.supply_type_part {declared : TypeDeclaration}
    (isDeclared : declared ∈ again.schema.types) :
    declared.supply kept = declared.supply supplied := by
  obtain ⟨additions, each, gains⟩ := partPasses.gains
  rcases ((lawful.orderly.ofPart isPart).mem_types_iff partPasses.definitions gains).mp isDeclared
    with isAdded | ⟨_, _, _, _, _, _, rfl⟩
  · obtain ⟨added, isAddition, inside⟩ := List.mem_flatMap.mp isAdded
    obtain ⟨⟨document, found⟩, isPair, declares⟩ := Pairing.exists_of_mem_right each isAddition
    obtain ⟨member, isFound⟩ := mem_definitions.mp isPair
    have taken := (declares.name_of_mem_types inside).1
    have fields :
        Field.supplyType declared.name kept = Field.supplyType declared.name supplied := by
      funext field
      apply Field.supply_of_subset among
      · intro first isFirst second isSecond firstOwner secondOwner sameId
        apply (filled.eq_or_apart lawful.orderly passes.definitions first isFirst second
          isSecond).resolve_right
        intro differ
        exact differ.owner (firstOwner.trans secondOwner.symm) sameId
      · intro pair isSupplied isOwner
        have waits : pair.1 ∈ typed.pending := filled.defaults ▸ List.mem_map_of_mem isSupplied
        exact covers pair isSupplied
          (passes.waits_part lawful isPart partPasses member isFound waits (isOwner ▸ taken))
    cases declared with
    | struct known | union known =>
      change Field.supplyType known.name kept = Field.supplyType known.name supplied at fields
      rw [TypeDeclaration.supply, TypeDeclaration.supply, fields]
    | enum | typedef => rfl
  · rfl

/-- A service of the part is supplied alike by the defaults of the part.

Proof: a service of the part is declared there, and its arguments take the defaults that are
addressed to their method. These wait in the part as well, because they are declared by this
service, so the part supplies each of them; defaults for one field are one. -/
theorem Filled.supply_service_part {service : Service}
    (isService : service ∈ again.schema.services) :
    service.supply kept = service.supply supplied := by
  obtain ⟨additions, each, gains⟩ := partPasses.gains
  rw [gains.services] at isService
  obtain ⟨added, isAddition, inside⟩ := List.mem_flatMap.mp isService
  obtain ⟨⟨document, found⟩, isPair, declares⟩ := Pairing.exists_of_mem_right each isAddition
  obtain ⟨member, isFound⟩ := mem_definitions.mp isPair
  cases declares with
  | service definition parent methods extended follow =>
    simp only [Additions.append, services_methodsAdditions, List.nil_append,
      List.mem_singleton] at inside
    subst inside
    unfold Service.supply
    congr 1
    refine List.map_congr_left fun method isMethod => ?_
    obtain ⟨function, isFunction, follows⟩ := Pairing.exists_of_mem_right follow.each isMethod
    have arguments : Field.supplyMethod (document.qualified definition.name) method.name kept =
        Field.supplyMethod (document.qualified definition.name) method.name supplied := by
      funext field
      apply Field.supply_of_subset among
      · intro first isFirst second isSecond firstMethod secondMethod sameId
        apply (filled.eq_or_apart lawful.orderly passes.definitions first isFirst second
          isSecond).resolve_right
        intro differ
        exact differ.method _ firstMethod secondMethod sameId
      · intro pair isSupplied isCalled
        have waits : pair.1 ∈ typed.pending := filled.defaults ▸ List.mem_map_of_mem isSupplied
        obtain ⟨home, -, other, -, others, alsoDeclares, alsoWaits⟩ :=
          exists_declares_of_waiting passes.definitions waits
        have isOwner := alsoDeclares.owner_of_method alsoWaits isCalled
        rw [follows.name] at isOwner
        refine covers pair isSupplied (passes.waits_part lawful isPart partPasses member isFound
          waits ?_)
        exact List.mem_flatMap.mpr ⟨function, isFunction, isOwner ▸ List.mem_cons_self⟩
    rw [Method.supply, Method.supply, arguments]
  | _ => simp at inside

end Defaults

section Passes

variable (lawful : scope.Lawful) (isPart : PartOf part.documents scope.documents)
  (passes : scope.Passes typed settled later)

include lawful isPart passes

/-- Where all passes succeed on documents, they succeed on a part of them. What they add is the
constants of the part and, for each default of the part, the value that it has among all.

Proof: the first pass of the part succeeds because the part is lawful, and what waits behind it is
among what waits for all. The values that were supplied for these fill the state of the part, so its
other passes succeed as well. They supply the same defaults in some order and add the constants of
the part. -/
theorem Passes.exists_part (filled : scope.Filled typed later supplied) :
    ∃ again resettled last kept constants, part.Passes again resettled last ∧
      last = (again.supply kept).plus constants ∧ kept ⊆ supplied ∧
        (∀ pair ∈ supplied, pair.1 ∈ again.pending → pair ∈ kept) ∧
          ∀ {constant}, constant ∈ last.schema.constants ↔
            constant ∈ part.constantsOf later.schema.constants := by
  have partLawful := lawful.ofPart isPart
  obtain ⟨again, ran⟩ := partLawful.exists_linkDefinitions (List.prefix_refl _)
  rw [← forM_definitions] at ran
  have within := lawful.within_part isPart passes ran
  obtain ⟨kept, among, defaults⟩ : ∃ kept ⊆ supplied, kept.map Prod.fst = again.pending := by
    apply exists_map_eq_of_subset
    rw [filled.defaults]
    exact within.pending
  have partFilled := filled.ofPart lawful isPart passes ran defaults among
  have permuted : again.schema.Permuted again.schema := ⟨.refl _, .refl _, .refl _⟩
  have unmoved : again.pending.map (·.moved id) = again.pending := List.map_id _
  obtain ⟨resettled, last, others, constants, partPasses, rearranged, rfl, sameConstants⟩ :=
    partFilled.exists_passes (Relocation.refl part) partLawful.orderly ran permuted
      (sound_of_linkDefinitions ran).pending (.of_eq unmoved)
  refine ⟨again, resettled, _, others, constants, partPasses, rfl, ?_, ?_, ?_⟩
  · intro pair isOther
    exact among (rearranged.mem_iff.mpr isOther)
  · intro pair isSupplied waits
    rw [← defaults] at waits
    obtain ⟨other, isKept, same⟩ := List.mem_map.mp waits
    -- The default is supplied once among all, so this is the value that the part has for it.
    rcases filled.eq_or_apart lawful.orderly passes.definitions other (among isKept) pair isSupplied
      with rfl | differ
    · exact rearranged.mem_iff.mp isKept
    · exact absurd (congrArg PendingDefault.id same)
        (differ.owner (congrArg PendingDefault.owner same))
  · intro constant
    rw [← sameConstants, constants_supply_plus ran]

/-- Where all passes succeed on documents, they succeed on a part of them, with the same entries.

Proof: a type or service of a definition of the part is behind the first pass of both runs, and the
defaults of the part supply it as all defaults do. A constant of the part is one of both states, and
names are indexed in both. -/
theorem Passes.exists_shared : ∃ again resettled last, part.Passes again resettled last ∧
    ∀ document ∈ part.documents, ∀ found ∈ document.definitions,
      last.schema.SharesEntries later.schema document found := by
  have partOrderly := lawful.orderly.ofPart isPart
  obtain ⟨supplied, filled⟩ := passes.filled
  obtain ⟨again, resettled, _, kept, constants, partPasses, rfl, among, covers, sameConstants⟩ :=
    passes.exists_part lawful isPart filled
  have within := lawful.within_part isPart passes partPasses.definitions
  refine ⟨again, resettled, _, partPasses, fun document member found isFound => ⟨?_, ?_, ?_⟩⟩
  · intro name named
    have isName := (partPasses.mem_typeNames partOrderly).mpr
      (List.mem_flatMap.mpr ⟨(document, found), mem_definitions.mpr ⟨member, isFound⟩, named⟩)
    obtain ⟨declared, isDeclared, rfl⟩ := List.mem_map.mp isName
    refine ⟨declared.supply supplied, ?_,
      filled.declaration?_of_mem passes.typedSound.schema.indexed (within.types isDeclared)⟩
    rw [← filled.supply_type_part lawful isPart passes partPasses among covers isDeclared]
    exact declaration?_supply_plus partPasses.typedSound.schema.indexed isDeclared kept constants
  · intro name named
    obtain ⟨added, declares, -, services, -⟩ := partPasses.exists_declares member isFound
    rw [← declares.map_name_services] at named
    obtain ⟨service, isAdded, rfl⟩ := List.mem_map.mp named
    have isService := services isAdded
    refine ⟨service.supply supplied, ?_,
      filled.service_of_mem passes.typedSound.schema.indexed (within.services isService)⟩
    rw [← filled.supply_service_part lawful isPart passes partPasses among covers isService]
    exact service_supply_plus partPasses.typedSound.schema.indexed isService kept constants
  · intro name named
    cases found with
    | constant definition =>
      obtain rfl := List.mem_singleton.mp named
      obtain ⟨linked, isLinked⟩ := filled.complete document definition
        (mem_definitions.mpr ⟨isPart.among.subset member, isFound⟩)
      obtain ⟨isConstant, linkedName⟩ := filled.indexed.constant?_eq_some.mp isLinked
      have isThere := sameConstants.mpr (mem_constantsOf.mpr
        ⟨isConstant, document, member, definition, isFound, linkedName.symm⟩)
      exact ⟨linked, partPasses.indexed.constant?_eq_some.mpr ⟨isThere, linkedName⟩, isLinked⟩
    | _ => simp [Definition.constantNames] at named

end Passes

end Scope

section Documents

variable {documents part : List Document}

/-- A part of unambiguous documents is unambiguous. -/
theorem Unambiguous.ofPart (unambiguous : Unambiguous documents) (among : part.Sublist documents) :
    Unambiguous part where
  paths := unambiguous.paths.sublist (among.map _)
  modules document member := unambiguous.modules document (among.subset member)
  names document member := unambiguous.names document (among.subset member)

/-- Where unambiguous documents link, each part of them that has all that it includes links by
itself, and all that it defines has the same entries.

Proof: that documents link is that they are lawful and that the passes go through. A part is lawful
where the whole is, and its passes leave entries that the passes over the whole leave too. -/
theorem parts_link_alike (unambiguous : Unambiguous documents) (isPart : PartOf part documents)
    {schema : Schema} (linked : link documents = .ok schema) :
    ∃ other, link part = .ok other ∧ ∀ document ∈ part, ∀ found ∈ document.definitions,
      other.SharesEntries schema document found := by
  obtain ⟨typed, settled, later, lawful, passes, rfl⟩ := unambiguous.link_eq_ok.mp linked
  obtain ⟨again, resettled, last, partPasses, shares⟩ : ∃ again resettled last,
      (Scope.mk part).Passes again resettled last ∧ ∀ document ∈ part,
        ∀ found ∈ document.definitions, last.schema.SharesEntries later.schema document found :=
    passes.exists_shared lawful isPart
  have partLinked : link part = .ok last.schema :=
    (unambiguous.ofPart isPart.among).link_eq_ok.mpr
      ⟨_, _, _, lawful.ofPart isPart, partPasses, rfl⟩
  exact ⟨last.schema, partLinked, shares⟩

end Documents

/-- A document that includes others and that none of them includes. It defines names that they
refer to in other documents. -/
def strayDocument : Document where
  path := "c.thrift"
  module := "c"
  includes := [{ path := "a.thrift" }]
  definitions := [
    .typedef { name := "N", target := .base .string },
    .constant { name := "LOW", type := .named "N" {}, value := .text "low" },
    .struct { name := "Q", fields := [
      { id := 1, name := "p", type := .named "a.P" {}, default := some (.map []) }] }]

/-- The two documents link without the one that includes them, to the same entries. -/
theorem callDocument_links_alone :
    Unambiguous [strayDocument, callDocument, limitDocument] ∧
      PartOf [callDocument, limitDocument] [strayDocument, callDocument, limitDocument] ∧
        ∃ schema other, link [strayDocument, callDocument, limitDocument] = .ok schema ∧
          link [callDocument, limitDocument] = .ok other ∧
            ∀ document ∈ [callDocument, limitDocument], ∀ found ∈ document.definitions,
              other.SharesEntries schema document found := by
  have unambiguous : Unambiguous [strayDocument, callDocument, limitDocument] :=
    ⟨by decide, by decide, by decide⟩
  have isPart : PartOf [callDocument, limitDocument]
      [strayDocument, callDocument, limitDocument] := by
    refine ⟨List.sublist_cons_self _ _, ?_⟩
    simp [callDocument, limitDocument]
  refine ⟨unambiguous, isPart, ?_⟩
  have succeeds : (link [strayDocument, callDocument, limitDocument]).isOk = true := by
    decide +kernel
  obtain ⟨schema, linked⟩ := Outcome.exists_ok_of_isOk succeeds
  obtain ⟨other, alsoLinked, shares⟩ := parts_link_alike unambiguous isPart linked
  exact ⟨schema, other, linked, alsoLinked, shares⟩

end SchemaCodec
