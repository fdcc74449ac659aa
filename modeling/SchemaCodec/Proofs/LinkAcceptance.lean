import Mathlib.Data.List.Induction
import Mathlib.Data.Prod.Basic
import SchemaCodec.Proofs.AcceptedDocuments
import SchemaCodec.Proofs.LinkCompleteness

/-!
# What links is what is well formed

Where documents have no constants, no defaults and no dots in modules and names, linking succeeds
exactly when the documents are well formed: nothing else can go wrong, in whatever order definitions
come, and nothing that is wrong is overlooked.
-/

namespace SchemaCodec

open Linking

/-- The lists of fields in a definition. -/
def Definition.fieldLists : Definition → List (List FieldDefinition)
  | .struct definition | .union definition | .exception definition => [definition.fields]
  | .service definition =>
    definition.functions.flatMap fun function => [function.arguments, function.throws]
  | .typedef _ | .enum _ | .constant _ => []

/-- A document without constants and defaults, and without dots in its module and its names. What is
left can only be at fault by its names and its types, so whether it links is a matter of these. -/
structure Document.Plain (document : Document) : Prop where
  module : Dotless document.module
  names : ∀ found ∈ document.definitions, Dotless found.name
  constants : ∀ definition, .constant definition ∉ document.definitions
  defaults : ∀ found ∈ document.definitions, ∀ fields ∈ found.fieldLists, ∀ field ∈ fields,
    field.default = none

namespace Scope

variable {scope : Scope} {document : Document} {found : Definition} {linking later : Linking}

section FirstPass

/-- Each definition stands in one place. -/
theorem Orderly.nodup_definitions (orderly : scope.Orderly) : scope.definitions.Nodup := by
  refine List.nodup_flatMap.mpr ⟨fun document member => ?_, ?_⟩
  · exact (orderly.names document member).of_map.map (Prod.mk_right_injective document)
  · refine orderly.paths.of_map.imp fun {first second} apart => ?_
    intro pair isFirst isSecond
    obtain ⟨_, -, rfl⟩ := List.mem_map.mp isFirst
    obtain ⟨_, -, same⟩ := List.mem_map.mp isSecond
    exact apart (congrArg Prod.fst same).symm

/-- What other definitions have declared leaves the names that a definition takes. -/
theorem Orderly.leaves_of_gains (orderly : scope.Orderly) {pairs : List (Document × Definition)}
    (known : pairs ⊆ scope.definitions) {additions : List Additions}
    (each : List.Forall₂ (fun pair added => scope.Declares pair.1 pair.2 added) pairs additions)
    (gains : scope.Gains {} linking (.all additions)) (member : document ∈ scope.documents)
    (isFound : found ∈ document.definitions) (new : (document, found) ∉ pairs) :
    scope.Leaves linking (found.takenNames document) := by
  have empty : scope.Leaves {} (found.takenNames document) :=
    ⟨.empty, by simp, fun name taken home isHome definition isTypedef =>
      orderly.ne_of_mem_takenNames member isHome isFound isTypedef taken, by simp⟩
  refine empty.gain gains fun declared isDeclared => ?_
  obtain ⟨added, isAdded, isDeclared⟩ := List.mem_flatMap.mp isDeclared
  obtain ⟨⟨home, other⟩, isPair, declares⟩ := Pairing.exists_of_mem_right each isAdded
  obtain ⟨isHome, isOther⟩ := mem_definitions.mp (known isPair)
  obtain ⟨named, -⟩ := declares.name_of_mem_types isDeclared
  refine ⟨fun taken => ?_, fun nextHome isNext definition isTypedef =>
    orderly.ne_of_mem_takenNames isHome isNext isOther isTypedef named⟩
  obtain ⟨rfl, rfl⟩ := orderly.eq_of_mem_takenNames member isHome isFound isOther taken named
  exact new isPair

/-- What other definitions have declared leaves the name of a service. -/
theorem Orderly.services_of_gains (orderly : scope.Orderly)
    {pairs : List (Document × Definition)} (known : pairs ⊆ scope.definitions)
    {additions : List Additions}
    (each : List.Forall₂ (fun pair added => scope.Declares pair.1 pair.2 added) pairs additions)
    (gains : scope.Gains {} linking (.all additions)) (member : document ∈ scope.documents)
    {definition : ServiceDefinition} (isFound : .service definition ∈ document.definitions)
    (new : (document, .service definition) ∉ pairs) :
    ∀ service ∈ linking.schema.services,
      service.name ≠ document.qualified definition.name := by
  intro service isService same
  rw [gains.services] at isService
  obtain ⟨added, isAdded, isService⟩ := List.mem_flatMap.mp isService
  obtain ⟨⟨home, other⟩, isPair, declares⟩ := Pairing.exists_of_mem_right each isAdded
  obtain ⟨isHome, isOther⟩ := mem_definitions.mp (known isPair)
  obtain ⟨otherService, rfl, named⟩ := declares.name_of_mem_services isService
  obtain ⟨rfl, sameFound⟩ := orderly.eq_of_qualified member isHome isFound isOther
    (same.symm.trans named)
  exact new (sameFound ▸ isPair)

/-- The definitions of well-formed documents can be linked one after another. The induction is on
the definitions that were linked before: these tell which names are taken.

Proof: the definitions in front of the last one are linked by the induction hypothesis. What they
gained takes only names of their own, so the names of the last one are left, and it is linked as
well. -/
theorem Lawful.exists_linkDefinitions (lawful : scope.Lawful)
    {pairs : List (Document × Definition)} (front : pairs <+: scope.definitions) :
    ∃ later, (pairs.forM fun pair => scope.linkDefinition pair.1 pair.2) {} = .ok ((), later) := by
  induction pairs using List.reverseRecOn with
  | nil => exact ⟨{}, rfl⟩
  | append_singleton pairs pair inductionHypothesis =>
    obtain ⟨linking, before⟩ := inductionHypothesis ((List.prefix_append _ _).trans front)
    have known : pairs ⊆ scope.definitions := fun other isOther =>
      front.subset (List.mem_append_left _ isOther)
    obtain ⟨member, isFound⟩ := mem_definitions.mp
      (front.subset (List.mem_append_right pairs (List.mem_singleton_self pair)))
    have new : pair ∉ pairs := fun isPair =>
      List.disjoint_of_nodup_append (lawful.orderly.nodup_definitions.sublist front.sublist) isPair
        (List.mem_singleton_self pair)
    obtain ⟨additions, each, gains⟩ := gains_forM known before
    obtain ⟨later, linked⟩ := lawful.exists_linkDefinition member isFound
      (lawful.orderly.leaves_of_gains known each gains member isFound new)
      fun definition same => lawful.orderly.services_of_gains known each gains member
        (same ▸ isFound) (same ▸ new)
    exact ⟨later, forM_append_eq_ok.mpr
      ⟨linking, before, forM_cons_eq_ok.mpr ⟨later, linked, rfl⟩⟩⟩

end FirstPass

section OtherPasses

/-- Steps that leave the state alone leave it alone in a row. -/
theorem forM_of_idle {step : α → LinkM Unit} {items : List α}
    (idle : ∀ item ∈ items, ∀ linking, step item linking = .ok ((), linking)) (linking : Linking) :
    items.forM step linking = .ok ((), linking) := by
  induction items with
  | nil => rfl
  | cons item rest inductionHypothesis =>
    obtain ⟨here, behind⟩ := List.forall_mem_cons.mp idle
    exact forM_cons_eq_ok.mpr ⟨linking, here linking, inductionHypothesis behind⟩

/-- Fields without defaults let none wait. -/
theorem allAwaited_eq_nil {owner : FieldOwner} {definitions : List FieldDefinition}
    (none : ∀ definition ∈ definitions, definition.default = none) (fields : List Field) :
    allAwaited document owner definitions fields = [] := by
  refine List.flatMap_eq_nil_iff.mpr fun pair beside => ?_
  simp [awaited, none pair.1 (List.of_mem_zip beside).1]

/-- A definition without defaults lets none wait. -/
theorem Declares.pending_eq_nil {added : Additions}
    (declares : scope.Declares document found added)
    (defaults : ∀ fields ∈ found.fieldLists, ∀ field ∈ fields, field.default = none) :
    added.pending = [] := by
  cases declares with
  | constant | typedef | enum => rfl
  | struct | exception | union =>
    exact allAwaited_eq_nil (defaults _ (List.mem_singleton_self _)) _
  | service definition parent methods extended follow =>
    simp only [Additions.append, methodsAdditions, Additions.all, List.append_nil,
      List.flatMap_eq_nil_iff, List.mem_map]
    rintro _ ⟨pair, beside, rfl⟩
    refine allAwaited_eq_nil (defaults _ (List.mem_flatMap.mpr ⟨pair.1, ?_, List.mem_cons_self⟩)) _
    exact (List.of_mem_zip beside).1

/-- Well-formed documents without constants and defaults pass all passes of linking.

Proof: the first pass links the definitions one after another. Without constants the second pass has
nothing to do, and without defaults nothing waits for the third one, so both leave the state of the
first. -/
theorem Lawful.exists_passes (lawful : scope.Lawful)
    (plain : ∀ document ∈ scope.documents, document.Plain) :
    ∃ typed settled later, scope.Passes typed settled later := by
  obtain ⟨typed, linked⟩ := lawful.exists_linkDefinitions (List.prefix_refl _)
  obtain ⟨additions, each, gains⟩ := gains_forM (List.Subset.refl _) linked
  have nothingWaits : typed.pending = [] := by
    rw [gains.pending]
    refine List.flatMap_eq_nil_iff.mpr fun added isAdded => ?_
    obtain ⟨⟨document, found⟩, isPair, declares⟩ := Pairing.exists_of_mem_right each isAdded
    obtain ⟨member, isFound⟩ := mem_definitions.mp isPair
    exact declares.pending_eq_nil ((plain document member).defaults found isFound)
  refine ⟨typed, typed, typed, ?_, ?_, ?_⟩
  · rw [forM_definitions]
    exact linked
  · refine forM_of_idle (fun document member linking => ?_) typed
    refine forM_of_idle (fun found isFound linking => ?_) linking
    cases found with
    | constant definition => exact absurd isFound ((plain document member).constants definition)
    | _ => rfl
  · rw [nothingWaits]
    rfl

end OtherPasses

end Scope

open Scope

/-- Plain documents link exactly when those that are first of their paths are well formed.

Proof: scopes are formed exactly if modules, includes and names are in order, and then the documents
that are first of their paths are orderly. If linking goes through all its passes, each pass has
checked its part of what is well formed; conversely, what is well formed lets each pass through. -/
theorem links_iff_wellFormed {documents : List Document}
    (plain : ∀ document ∈ documents, document.Plain) :
    (∃ schema, link documents = .ok schema) ↔
      (Scope.mk (firstOfPaths documents [])).WellFormed := by
  have kept : ∀ document ∈ firstOfPaths documents [], document.Plain := fun document isKept =>
    plain document (mem_of_mem_firstOfPaths isKept)
  have orderly (modules : ((firstOfPaths documents []).map (·.module)).Nodup)
      (names : ∀ document ∈ firstOfPaths documents [],
        (document.definitions.map (·.name)).Nodup) :
      (Scope.mk (firstOfPaths documents [])).Orderly :=
    ⟨seenOnce_start.mp seenOnce_firstOfPaths, modules, names,
      fun document isKept => (kept document isKept).module,
      fun document isKept => (kept document isKept).names⟩
  constructor
  · rintro ⟨schema, linked⟩
    obtain ⟨scope, formed, typed, settled, later, passes, -⟩ := link_eq_ok.mp linked
    obtain ⟨rfl, modules, includes, names⟩ := ofDocuments_eq_ok_iff.mp formed
    exact passes.wellFormed (orderly modules names) includes
  · intro wellFormed
    have formed := ofDocuments_eq_ok_iff.mpr
      ⟨rfl, wellFormed.modules, wellFormed.includes, wellFormed.names⟩
    have lawful : (Scope.mk (firstOfPaths documents [])).Lawful :=
      ⟨orderly wellFormed.modules wellFormed.names, wellFormed⟩
    obtain ⟨typed, settled, later, passes⟩ := lawful.exists_passes kept
    exact ⟨later.schema, link_eq_ok.mpr ⟨_, formed, typed, settled, later, passes, rfl⟩⟩

/-- A document with another name for an exception, an enum, and a service that extends one of the
other document. -/
def signalDocument : Document where
  path := "a.thrift"
  module := "a"
  includes := [{ path := "b.thrift" }]
  definitions := [
    .typedef { name := "Fault", target := .named "b.Broken" {} },
    .enum { name := "Color", members := [{ name := "RED", number := some 1 }, { name := "BLUE" }] },
    .service { name := "S", parent := some "R", functions := [
      { name := "f", returns := some (.base .i32),
        arguments := [{ id := 1, name := "shapes", type := .list (.named "Shape" {}) }],
        throws := [{ id := 1, name := "fault", type := .named "Fault" {} }] },
      { name := "g", oneway := true }] }]

/-- A document that is included and includes the other one in turn. -/
def shapeDocument : Document where
  path := "b.thrift"
  module := "b"
  includes := [{ path := "a.thrift" }]
  definitions := [
    .service { name := "R" },
    .exception { name := "Broken", fields := [
      { id := 1, name := "color", type := .named "Color" {} }] },
    .union { name := "Shape", fields := [
      { id := 1, name := "side", type := .base .i32 },
      { id := 2, name := "parts", type := .list (.named "Shape" {}) }] }]

/-- The two documents are plain. -/
theorem plain_signalDocument : ∀ document ∈ [signalDocument, shapeDocument], document.Plain := by
  refine List.forall_mem_cons.mpr ⟨?_, List.forall_mem_singleton.mpr ?_⟩
  · exact ⟨by decide, by decide, by simp [signalDocument],
      by simp [signalDocument, Definition.fieldLists]⟩
  · exact ⟨by decide, by decide, by simp [shapeDocument],
      by simp [shapeDocument, Definition.fieldLists]⟩

/-- The two documents link, so they are well formed. -/
theorem signalDocument_is_wellFormed :
    (Scope.mk (firstOfPaths [signalDocument, shapeDocument] [])).WellFormed := by
  have linked : (link [signalDocument, shapeDocument]).isOk = true := by decide +kernel
  exact (links_iff_wellFormed plain_signalDocument).mp (Outcome.exists_ok_of_isOk linked)

end SchemaCodec
