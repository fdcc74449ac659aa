import SchemaCodec.Proofs.LinkedParts

/-!
# Constants of a part

Whatever the literals of a part name belongs to the part. So with the constants of the part alone,
in the order in which they stand among all constants, each literal becomes the value that it becomes
with all of them: the constants of the part are grounded, and its defaults are supplied with their
values.
-/

namespace SchemaCodec

open Linking

/-- Items come from those whose images are theirs. -/
theorem exists_map_eq_of_subset {α β : Type} {image : α → β} {items : List α} {images : List β}
    (among : images ⊆ items.map image) : ∃ chosen ⊆ items, chosen.map image = images := by
  induction images with
  | nil => exact ⟨[], List.nil_subset _, rfl⟩
  | cons first rest inductionHypothesis =>
    obtain ⟨chosen, areItems, rfl⟩ := inductionHypothesis (List.subset_of_cons_subset among)
    obtain ⟨item, isItem, rfl⟩ := List.mem_map.mp (among List.mem_cons_self)
    exact ⟨item :: chosen, List.cons_subset.mpr ⟨isItem, areItems⟩, rfl⟩

namespace Scope

variable {scope part : Scope} {document : Document} {definition : ConstantDefinition}
  {constant : Constant} {typed settled later again before base : Linking} {supplied kept : Supply}

/-- The constants, among some, that definitions of a part declare. -/
def constantsOf (part : Scope) (constants : List Constant) : List Constant :=
  constants.filter (·.name ∈ part.definitions.flatMap fun pair => pair.2.constantNames pair.1)

section Selection

variable {constants : List Constant}

/-- A constant of the part is declared by one of its documents. -/
theorem mem_constantsOf : constant ∈ part.constantsOf constants ↔
    constant ∈ constants ∧ ∃ document ∈ part.documents, ∃ definition,
      .constant definition ∈ document.definitions ∧
        document.qualified definition.name = constant.name := by
  rw [constantsOf, List.mem_filter, decide_eq_true_iff, mem_constantNames_iff]

end Selection

section Conversion

variable (lawful : scope.Lawful) (isPart : PartOf part.documents scope.documents)
  (precedes : before.Precedes later) (indexed : later.schema.Indexed)
  (same : base.schema.constants = part.constantsOf before.schema.constants)
  (alsoIndexed : base.schema.Indexed)

include precedes indexed same alsoIndexed

/-- A constant of the part is recalled from the constants of the part. -/
theorem persists_recalled (member : document ∈ part.documents)
    (isDefinition : .constant definition ∈ document.definitions) :
    Persists before base (scope.recalled document definition)
      (part.recalled document definition) := by
  intro value last ran
  obtain ⟨linked, found, rfl, rfl⟩ := recalled_eq_ok.mp ran
  refine ⟨rfl, recalled_eq_ok.mpr ⟨linked, ?_, rfl, rfl⟩⟩
  obtain ⟨-, named⟩ := indexed.constant?_eq_some.mp (precedes.constant? found)
  refine alsoIndexed.constant?_eq_some.mpr ⟨?_, named⟩
  rw [same]
  exact mem_constantsOf.mpr
    ⟨NameIndex.mem_of_lookup? found, document, member, definition, isDefinition, named.symm⟩

include lawful isPart

/-- A literal of the part becomes its value with the constants of the part.

Proof: conversion in the part mirrors conversion in the whole scope, with no change of names. A
document of the part sees the same definitions in both, and a constant that it sees is found in both
states alike. -/
theorem Lawful.convert_part {usable : DataType → Prop}
    (tells : before.schema.Tells usable base.schema) {context : LiteralContext}
    (member : context.document ∈ part.documents) {literal : Literal} {type : DataType}
    (isUsable : usable type) {value : Value}
    (converted : scope.convert scope.recalled context literal type before = .ok (value, before)) :
    part.convert part.recalled context literal type base = .ok (value, base) := by
  have twice : ConvertedTwice usable (Persists before base) scope part id scope.recalled
      part.recalled context :=
    { mirroring_persists tells with
      lookup := by
        intro name
        rw [← lawful.orderly.lookup_part isPart member]
        exact Option.map_id'.symm
      qualified := fun _ _ => rfl
      constants := by
        intro name home definition isFound
        rw [← lawful.orderly.lookup_part isPart member] at isFound
        obtain ⟨isHome, isDefinition⟩ := mem_of_lookup member isFound
        exact persists_recalled precedes indexed same alsoIndexed isHome isDefinition }
  exact (mirrors_convert twice literal isUsable converted).2

/-- A constant of the part comes from its definition with the constants of the part. -/
theorem Lawful.origin_part
    (ran : (part.documents.forM fun document =>
      document.definitions.forM (part.linkDefinition document)) {} = .ok ((), again))
    (tells : before.schema.Tells again.schema.Closed base.schema)
    (origin : scope.Origin before document definition constant)
    (member : document ∈ part.documents) : part.Origin base document definition constant := by
  have resolved : part.resolve document definition.type = .ok constant.type :=
    ((lawful.orderly.counterparts_part isPart).resolve member _).symm.trans origin.type
  have closed := closed_of_resolve ran member resolved
  exact ⟨member, origin.isDefinition, origin.name, resolved,
    lawful.convert_part isPart precedes indexed same alsoIndexed tells member closed origin.value⟩

end Conversion

section Filling

/-- Behind the first pass there are no constants but those that are added. -/
theorem constants_supply_plus
    (ran : (scope.documents.forM fun document =>
      document.definitions.forM (scope.linkDefinition document)) {} = .ok ((), typed))
    (supplied : Supply) (constants : List Constant) :
    ((typed.supply supplied).plus constants).schema.constants = constants := by
  have noConstants : (typed.supply supplied).schema.constants = [] :=
    (Schema.constants_supply _ _).trans (grounded_of_linkDefinitions ran).2
  simp [Linking.plus, noConstants]

/-- Types survive where defaults are filled in and constants are added. -/
theorem survives_supply_plus (linking : Linking) (supplied : Supply) (constants : List Constant) :
    linking.schema.SurvivesIn ((linking.supply supplied).plus constants).schema :=
  (Precedes.supply linking supplied).types.trans (.of_types rfl rfl)

variable (lawful : scope.Lawful) (isPart : PartOf part.documents scope.documents)
  (passes : scope.Passes typed settled later)
  (ran : (part.documents.forM fun document =>
    document.definitions.forM (part.linkDefinition document)) {} = .ok ((), again))

include lawful isPart passes ran

/-- The types of the part survive among all types. -/
theorem Lawful.part_survives : again.schema.SurvivesIn later.schema := by
  have within := lawful.within_part isPart passes ran
  have survives := within.survives (sound_of_linkDefinitions ran).schema.indexed
    passes.typedSound.schema.indexed
  exact survives.trans (passes.settles.trans passes.fills).survives

/-- What an earlier state tells of the types of the part is told wherever these survive. -/
theorem Lawful.tells_part (survives : before.schema.SurvivesIn later.schema)
    (stays : again.schema.SurvivesIn base.schema) :
    before.schema.Tells again.schema.Closed base.schema :=
  (Schema.tells_of_closed survives (lawful.part_survives isPart passes ran)
    (linked_of_linkDefinitions ran)).trans stays

variable (filled : scope.Filled typed later supplied)

include filled

omit lawful isPart passes in
/-- The constants of the part, or those in front among them, are indexed, whatever defaults are
filled in. -/
theorem Filled.indexed_part (kept : Supply) {constants : List Constant}
    (among : constants.Sublist later.schema.constants) :
    ((again.supply kept).plus constants).schema.Indexed := by
  refine indexed_plus_of_nodup ((sound_of_linkDefinitions ran).schema.indexed.supply kept) ?_
  have noConstants : (again.supply kept).schema.constants = [] :=
    (Schema.constants_supply _ _).trans (grounded_of_linkDefinitions ran).2
  rw [noConstants, List.nil_append]
  exact filled.indexed.constants.nodup.sublist (among.map _)

/-- The constants of the part rest on one another, whatever defaults are filled in.

Proof: a constant of the part has an origin in the run over all documents, in a state with the
constants in front of it. Leaving out the constants of other parts leaves the constants of the part
in front of it, and conversion looks no others up, so with them the literal has the same value. -/
theorem Filled.grounded_part (kept : Supply) :
    part.Grounded ((again.supply kept).plus (part.constantsOf later.schema.constants)) where
  typedefs := by
    obtain ⟨grounded, -⟩ := grounded_of_linkDefinitions ran
    exact grounded.typedefs.survives (survives_supply_plus again kept _)
  origins {front constant back} split := by
    have constants := constants_supply_plus ran kept
    rw [constants] at split
    -- The constants in front of this one are those of the part in front of it among all.
    obtain ⟨first, others, allSplit, isFront, isOthers⟩ := List.filter_eq_append_iff.mp split
    obtain ⟨between, last, rfl, neither, -, -⟩ := List.filter_eq_cons_iff.mp isOthers
    have regrouped : later.schema.constants = (first ++ between) ++ constant :: last := by
      rw [allSplit, List.append_assoc]
    obtain ⟨before, precedes, isBefore, home, definition, origin⟩ :=
      filled.grounded.origins regrouped
    have same : ((again.supply kept).plus front).schema.constants =
        part.constantsOf before.schema.constants := by
      have noneBetween : part.constantsOf between = [] := List.filter_eq_nil_iff.mpr neither
      calc ((again.supply kept).plus front).schema.constants
        _ = part.constantsOf first ++ part.constantsOf between := by
          rw [constants, noneBetween, List.append_nil, ← isFront, constantsOf]
        _ = part.constantsOf before.schema.constants := by
          rw [isBefore]
          exact (List.filter_append first between).symm
    have isThere : constant ∈ part.constantsOf later.schema.constants :=
      split ▸ List.mem_append_right _ List.mem_cons_self
    obtain ⟨-, document, member, other, isOther, named⟩ := mem_constantsOf.mp isThere
    obtain ⟨rfl, -⟩ := lawful.orderly.eq_of_qualified origin.member (isPart.among.subset member)
      origin.isDefinition isOther (origin.name.trans named.symm)
    have tells := lawful.tells_part isPart passes ran precedes.types
      (survives_supply_plus again kept front)
    have inFront : front.Sublist (part.constantsOf later.schema.constants) :=
      split ▸ List.sublist_append_left _ _
    have indexed := filled.indexed_part ran kept (inFront.trans List.filter_sublist)
    refine ⟨(again.supply kept).plus front, ?_, constants front, home, definition,
      lawful.origin_part isPart precedes filled.indexed same indexed ran tells origin member⟩
    rw [split, ← plus_plus]
    exact .plus _ _

/-- The state behind the first pass over the part is filled with the constants of the part and with
the values that are supplied among all.

Proof: constants are grounded in the part alone by the previous lemma. Each default that waits in
the part waits in the whole run too, and its literal converts to the same value there with the
constants of the part. A constant of the part is found among all under its qualified name, so it is
among those of the part. -/
theorem Filled.ofPart (defaults : kept.map Prod.fst = again.pending) (among : kept ⊆ supplied) :
    part.Filled again ((again.supply kept).plus (part.constantsOf later.schema.constants))
      kept := by
  have constants := constants_supply_plus ran kept
    (part.constantsOf later.schema.constants)
  have ofPart : (part.constantsOf later.schema.constants).Sublist later.schema.constants :=
    List.filter_sublist
  have indexed := filled.indexed_part ran kept ofPart
  refine ⟨filled.grounded_part lawful isPart passes ran kept, defaults, ⟨_, rfl⟩, ?_, ?_, indexed⟩
  · intro pair isKept
    have waits : pair.1 ∈ again.pending := defaults ▸ List.mem_map_of_mem isKept
    have member := (sound_of_linkDefinitions ran).pending pair.1 waits
    have tells := lawful.tells_part isPart passes ran (.refl _)
      (survives_supply_plus again kept (part.constantsOf later.schema.constants))
    exact lawful.convert_part isPart (.refl _) filled.indexed constants indexed tells member
      (closed_of_waiting ran waits) (filled.converts pair (among isKept))
  · intro document definition isThere
    obtain ⟨member, isDefinition⟩ := mem_definitions.mp isThere
    obtain ⟨linked, found⟩ := filled.complete document definition
      (mem_definitions.mpr ⟨isPart.among.subset member, isDefinition⟩)
    obtain ⟨isThere, named⟩ := filled.indexed.constant?_eq_some.mp found
    refine ⟨linked, indexed.constant?_eq_some.mpr ⟨?_, named⟩⟩
    rw [constants]
    exact mem_constantsOf.mpr ⟨isThere, document, member, definition, isDefinition, named.symm⟩

end Filling

end Scope

end SchemaCodec
