import SchemaCodec.Proofs.RearrangedDefaults
import SchemaCodec.Proofs.SuppliedFields
import SchemaCodec.Proofs.WaitingDefaults

/-!
# The order of documents does not matter

Documents may be linked in any order, and so may the definitions of each document: either way all
passes succeed or none does, and the same entries come out under the same names. The typedefs and
constants that are linked on demand and the defaults that are filled in last leave no trace of the
order in which they had their turns.
-/

namespace SchemaCodec

open Linking

section Entries

/-- Two schemas hold the same entries under the same names. The lists are rearrangements of each
other, and every lookup gives the same answer in both, failures included. -/
structure Schema.SameEntries (schema other : Schema) : Prop extends schema.Permuted other where
  declaration? : ∀ name, other.declaration? name = schema.declaration? name
  service : ∀ name, other.service name = schema.service name
  constant? : ∀ name, other.constant? name = schema.constant? name

/-- Items in the order of their images. -/
theorem exists_perm_of_map_perm {α β : Type} {image : α → β} {items : List α} {images : List β}
    (permuted : (items.map image).Perm images) :
    ∃ rearranged, items.Perm rearranged ∧ rearranged.map image = images := by
  have composed : Relation.Comp (· = List.map image ·) List.Perm images items := by
    rw [List.eq_map_comp_perm]
    exact permuted.symm
  obtain ⟨rearranged, same, back⟩ := composed
  exact ⟨rearranged, back.symm, same.symm⟩

/-- Schemas with the same entries hold them under the same names, though their indexes hold other
positions: what each of them finds is the entry that has the name. -/
theorem Schema.Permuted.sameEntries {schema other : Schema} (permuted : schema.Permuted other)
    (indexed : schema.Indexed) (alsoIndexed : other.Indexed) : schema.SameEntries other where
  toPermuted := permuted
  declaration? name := Option.ext fun declared => by
    rw [indexed.declaration?_eq_some, alsoIndexed.declaration?_eq_some, permuted.types.mem_iff]
  service name := by
    have same : other.service? name = schema.service? name := Option.ext fun declared => by
      rw [indexed.service?_eq_some, alsoIndexed.service?_eq_some, permuted.services.mem_iff]
    rw [Schema.service, Schema.service, same]
  constant? name := Option.ext fun declared => by
    rw [indexed.constant?_eq_some, alsoIndexed.constant?_eq_some, permuted.constants.mem_iff]

end Entries

namespace Scope

variable {scope other : Scope} {move : Document → Document} {typed settled later again : Linking}

section Run

/-- The first pass leaves all typedefs linked and no constant. -/
theorem grounded_of_linkDefinitions
    (ran : (scope.documents.forM fun document =>
      document.definitions.forM (scope.linkDefinition document)) {} = .ok ((), typed)) :
    scope.Grounded typed ∧ typed.schema.constants = [] := by
  obtain ⟨additions, -, gains⟩ := gains_linkDefinitions ran
  refine ⟨⟨fun document member definition isTypedef => ?_, fun {front constant back} split => ?_⟩,
    gains.constants⟩
  · have registered := (advance_linkDefinitions ran).2 .empty document member _ isTypedef
    obtain ⟨declared, found, isType⟩ := Schema.resolve_eq_ok.mp (registered.type rfl)
    cases declared with
    | typedef known => exact ⟨known, found⟩
    | _ => simp [TypeDeclaration.type] at isType
  · rw [gains.constants] at split
    simp at split

/-- The indexes and the entries invert each other in the end. -/
theorem Passes.indexed (passes : scope.Passes typed settled later) : later.schema.Indexed :=
  (passes.settles.trans passes.fills).indexed passes.typedSound.schema.indexed

/-- How the state behind all passes comes from the one behind the first pass: each default that
waits is supplied with the value that the last constants tell, and all constants are added. -/
structure Filled (scope : Scope) (typed later : Linking)
    (supplied : List (PendingDefault × Value)) : Prop where
  grounded : scope.Grounded later
  defaults : supplied.map Prod.fst = typed.pending
  state : ∃ constants, later = (typed.supply supplied).plus constants
  converts : ∀ pair ∈ supplied, scope.Converts later pair.1 pair.2
  complete : ∀ document definition, (document, .constant definition) ∈ scope.definitions →
    ∃ linked, later.schema.constant? (document.qualified definition.name) = some linked
  indexed : later.schema.Indexed

/-- All passes together fill the state behind the first one.

Proof: the first pass leaves no constants. The second one adds constants that are grounded and finds
each of them behind itself; the third one supplies what waits and adds the constants that its
literals name, and what was found before stays found. -/
theorem Passes.filled (passes : scope.Passes typed settled later) :
    ∃ supplied, scope.Filled typed later supplied := by
  obtain ⟨grounded, -⟩ := grounded_of_linkDefinitions passes.definitions
  have ran := passes.constants
  rw [forM_definitions] at ran
  obtain ⟨groundedSettled, ⟨constants, rfl⟩, complete⟩ :=
    grounded_linkConstants (List.Subset.refl _) grounded ran
  obtain ⟨groundedLater, supplied, more, isSupplied, rfl, converts⟩ :=
    exists_supplied passes.settledSound.pending groundedSettled passes.defaults
  refine ⟨supplied, groundedLater, isSupplied, ⟨constants ++ more, ?_⟩, converts, ?_,
    passes.indexed⟩
  · rw [supply_plus, plus_plus]
  · intro document definition isThere
    obtain ⟨linked, found⟩ := complete document definition isThere
    have precedes := (Precedes.supply (typed.plus constants) supplied).trans (.plus _ more)
    exact ⟨linked, precedes.constant? found⟩

/-- What is supplied goes to different places. -/
theorem Filled.eq_or_apart {supplied : List (PendingDefault × Value)}
    (filled : scope.Filled typed later supplied) (orderly : scope.Orderly)
    (ran : (scope.documents.forM fun document =>
      document.definitions.forM (scope.linkDefinition document)) {} = .ok ((), typed)) :
    ∀ first ∈ supplied, ∀ second ∈ supplied, first = second ∨ first.1.Apart second.1 := by
  intro first isFirst second isSecond
  have waits {pair : PendingDefault × Value} (isSupplied : pair ∈ supplied) :
      pair.1 ∈ typed.pending := filled.defaults ▸ List.mem_map_of_mem isSupplied
  refine (orderly.eq_or_apart ran (waits isFirst) (waits isSecond)).imp_left fun same => ?_
  have converts := filled.converts first isFirst
  rw [same] at converts
  have sameOutcome := Except.ok.inj (converts.symm.trans (filled.converts second isSecond))
  exact Prod.ext same (Prod.mk.inj sameOutcome).1

end Run

section Twin

variable {supplied : List (PendingDefault × Value)} (filled : scope.Filled typed later supplied)
  (relocation : scope.Relocation other move) (orderly : scope.Orderly)
  (ran : (other.documents.forM fun document =>
    document.definitions.forM (other.linkDefinition document)) {} = .ok ((), again))
  (permuted : typed.schema.Permuted again.schema)

include filled ran permuted

/-- Behind the first pass over the other scope, the state is on its way to the last one. -/
theorem Filled.agrees : other.Agrees later again := by
  obtain ⟨grounded, noConstants⟩ := grounded_of_linkDefinitions ran
  have indexed := (sound_of_linkDefinitions ran).schema.indexed
  have alsoIndexed := filled.indexed
  obtain ⟨constants, rfl⟩ := filled.state
  have bare : ((typed.supply supplied).plus constants).schema.types.map (·.bare) =
      typed.schema.types.map (·.bare) := typed.schema.map_bare_supply supplied
  refine ⟨grounded.typedefs, .of_perm alsoIndexed indexed ?_, by simp [noConstants], indexed⟩
  rw [bare]
  exact permuted.types.map _

include relocation orderly

/-- The other scope passes all passes as well: the same constants are added, and the same defaults
are supplied in some order.

Proof: behind the first pass both states agree up to the order of their entries. The constants of
the second pass and the literals of the third one are converted to the same values there, with
constants added where they are met first. The defaults wait in another order, so they are supplied
in that order, and the states agree again. -/
theorem Filled.exists_passes (known : ∀ pending ∈ typed.pending, pending.document ∈ scope.documents)
    (pending : (typed.pending.map (·.moved move)).Perm again.pending) :
    ∃ settled last others constants, other.Passes again settled last ∧ supplied.Perm others ∧
      last = (again.supply others).plus constants ∧
        ∀ {constant}, constant ∈ later.schema.constants ↔ constant ∈ last.schema.constants := by
  have agrees := filled.agrees ran permuted
  obtain ⟨more, constants, agreesNow, all⟩ := exists_linkAllConstants relocation orderly
    filled.grounded filled.indexed filled.complete agrees
  rw [← filled.defaults, List.map_map] at pending
  obtain ⟨others, rearranged, isWaiting⟩ := exists_perm_of_map_perm pending
  have waits {pair : PendingDefault × Value} (isOther : pair ∈ others) : pair.1 ∈ typed.pending :=
    filled.defaults ▸ List.mem_map_of_mem (rearranged.mem_iff.mpr isOther)
  obtain ⟨further, among, defaults⟩ := exists_linkDefaults relocation orderly filled.grounded
    filled.indexed (fun pair isOther => known _ (waits isOther))
    (fun pair isOther => filled.converts pair (rearranged.mem_iff.mpr isOther)) agreesNow
  rw [supply_plus, plus_plus] at defaults
  have passes : other.Passes again (again.plus more)
      ((again.supply others).plus (more ++ further)) := by
    refine ⟨ran, ?_, ?_⟩
    · rwa [forM_definitions]
    · change other.linkDefaults again.pending _ = _
      rwa [← isWaiting]
  refine ⟨_, _, others, _, passes, rearranged, rfl, fun {constant} => ?_⟩
  have sameConstants : ((again.supply others).plus (more ++ further)).schema.constants =
      ((again.plus more).plus further).schema.constants := by
    simp [Linking.plus, Linking.supply]
  rw [sameConstants]
  constructor
  · intro isThere
    exact List.mem_append_left _ (all isThere)
  · intro isThere
    exact List.append_subset.mpr ⟨agreesNow.constants, among⟩ isThere

end Twin

/-- Where all passes succeed on documents, they succeed on the documents of a rearrangement, and the
same entries come out.

Proof: the first pass gives permuted types and services, and from the two states on the passes fill
in the same defaults in some order. Defaults for different fields may be supplied in any order, and
the constants of both states are the same and have distinct names. -/
theorem Relocation.exists_passes (relocation : scope.Relocation other move)
    (lawful : scope.Lawful) (passes : scope.Passes typed settled later) :
    ∃ typed settled last, other.Passes typed settled last ∧ later.schema.Permuted last.schema := by
  have orderly := lawful.orderly
  obtain ⟨again, ran, types, services, pending⟩ :=
    relocation.linkDefinitions lawful passes.definitions
  obtain ⟨-, noConstants⟩ := grounded_of_linkDefinitions passes.definitions
  obtain ⟨-, alsoNoConstants⟩ := grounded_of_linkDefinitions ran
  have permuted : typed.schema.Permuted again.schema :=
    ⟨types, services, by rw [noConstants, alsoNoConstants]⟩
  obtain ⟨supplied, filled⟩ := passes.filled
  obtain ⟨_, last, others, constants, alsoPasses, rearranged, rfl, sameConstants⟩ :=
    filled.exists_passes relocation orderly ran permuted passes.typedSound.pending pending
  refine ⟨_, _, _, alsoPasses, ?_⟩
  have apart := filled.eq_or_apart orderly passes.definitions
  have alsoIndexed := alsoPasses.typedSound.schema.indexed
  have supplies := permuted.supply passes.typedSound.schema.indexed alsoIndexed supplied
  rw [alsoIndexed.supply_perm rearranged apart] at supplies
  have names := filled.indexed.constants.nodup
  have alsoNames := alsoPasses.indexed.constants.nodup
  obtain ⟨constants, rfl⟩ := filled.state
  exact ⟨supplies.types, supplies.services,
    (List.perm_ext_iff_of_nodup names.of_map alsoNames.of_map).mpr fun _ => sameConstants⟩

/-- Documents with distinct paths are all kept. -/
theorem firstOfPaths_eq_self {documents : List Document} {seen : List String}
    (distinct : SeenOnce (·.path) seen documents) : firstOfPaths documents seen = documents := by
  induction documents generalizing seen with
  | nil => rfl
  | cons document rest inductionHypothesis =>
    obtain ⟨new, others⟩ := seenOnce_cons.mp distinct
    rw [firstOfPaths, if_neg new, inductionHypothesis others]

end Scope

section Documents

variable {documents others : List Document}

/-- A rearrangement can be undone. -/
theorem Rearranged.symm (rearranged : Rearranged documents others) :
    Rearranged others documents := by
  obtain ⟨middle, permuted, each⟩ := rearranged
  have back : List.Forall₂ Document.Reordered others middle := each.flip.imp fun _ _ reordered =>
    ⟨reordered.path.symm, reordered.module.symm, reordered.includes.symm,
      reordered.namespaces.symm, reordered.definitions.symm⟩
  have composed : Relation.Comp List.Perm (List.Forall₂ Document.Reordered) others documents := by
    rw [← List.forall₂_comp_perm_eq_perm_comp_forall₂]
    exact ⟨middle, back, permuted.symm⟩
  exact composed

/-- Documents whose paths are distinct, without dots in their modules and in the names that they
define. -/
structure Unambiguous (documents : List Document) : Prop where
  paths : (documents.map (·.path)).Nodup
  modules : ∀ document ∈ documents, Dotless document.module
  names : ∀ document ∈ documents, ∀ found ∈ document.definitions, Dotless found.name

/-- Documents are unambiguous in any order. -/
theorem Unambiguous.rearranged (unambiguous : Unambiguous documents)
    (rearranged : Rearranged documents others) : Unambiguous others := by
  obtain ⟨move, relocation⟩ := Scope.exists_relocation unambiguous.paths rearranged
  refine ⟨?_, fun home isHome => ?_, fun home isHome found isFound => ?_⟩
  · exact (relocation.map_moved (·.path)).nodup_iff.mpr unambiguous.paths
  · obtain ⟨document, member, rfl⟩ := relocation.exists_moved isHome
    exact (relocation.reordered document member).module ▸ unambiguous.modules document member
  · obtain ⟨document, member, rfl⟩ := relocation.exists_moved isHome
    exact unambiguous.names document member found ((relocation.mem_definitions member).mp isFound)

/-- Unambiguous documents form a scope, all of them, when modules, includes and names are in
order. -/
theorem Unambiguous.ofDocuments_eq_ok (unambiguous : Unambiguous documents) {scope : Scope} :
    Scope.ofDocuments documents = .ok scope ↔ ⟨documents⟩ = scope ∧
      (scope.documents.map (·.module)).Nodup ∧
        (∀ document ∈ scope.documents, ∀ included ∈ document.includes,
          ∃ home ∈ scope.documents, home.path = included.path) ∧
        ∀ document ∈ scope.documents, (document.definitions.map (·.name)).Nodup := by
  rw [Scope.ofDocuments_eq_ok_iff,
    Scope.firstOfPaths_eq_self (seenOnce_start.mpr unambiguous.paths)]

/-- Unambiguous documents link where they are lawful and the passes over them succeed, to the schema
that these leave. -/
theorem Unambiguous.link_eq_ok (unambiguous : Unambiguous documents) {schema : Schema} :
    link documents = .ok schema ↔ ∃ typed settled later, (Scope.mk documents).Lawful ∧
      (Scope.mk documents).Passes typed settled later ∧ later.schema = schema := by
  constructor
  · intro linked
    obtain ⟨scope, formed, typed, settled, later, passes, rfl⟩ := Scope.link_eq_ok.mp linked
    obtain ⟨rfl, modules, includes, names⟩ := unambiguous.ofDocuments_eq_ok.mp formed
    have orderly : (Scope.mk documents).Orderly :=
      ⟨unambiguous.paths, modules, names, unambiguous.modules, unambiguous.names⟩
    exact ⟨typed, settled, later, ⟨orderly, passes.wellFormed orderly includes⟩, passes, rfl⟩
  · rintro ⟨typed, settled, later, ⟨-, wellFormed⟩, passes, rfl⟩
    have formed := unambiguous.ofDocuments_eq_ok.mpr
      ⟨rfl, wellFormed.modules, wellFormed.includes, wellFormed.names⟩
    exact Scope.link_eq_ok.mpr ⟨_, formed, typed, settled, later, passes, rfl⟩

/-- Where documents link, they link in any order, with the same entries under the same names. -/
theorem exists_link_of_rearranged (unambiguous : Unambiguous documents)
    (rearranged : Rearranged documents others) {schema : Schema}
    (linked : link documents = .ok schema) :
    ∃ other, link others = .ok other ∧ schema.SameEntries other := by
  obtain ⟨typed, settled, later, lawful, passes, rfl⟩ := unambiguous.link_eq_ok.mp linked
  obtain ⟨move, relocation⟩ := Scope.exists_relocation unambiguous.paths rearranged
  obtain ⟨typedAgain, settledAgain, last, alsoPasses, permuted⟩ :=
    relocation.exists_passes lawful passes
  have alsoLinked : link others = .ok last.schema :=
    (unambiguous.rearranged rearranged).link_eq_ok.mpr
      ⟨_, _, _, relocation.lawful lawful, alsoPasses, rfl⟩
  refine ⟨last.schema, alsoLinked, ?_⟩
  exact permuted.sameEntries passes.indexed alsoPasses.indexed

/-- Unambiguous documents link in any order or in none, and the same entries are linked under the
same names.

Proof: a run over one order gives a run over the other one with the same entries. Rearranging can be
undone and keeps documents unambiguous, so this holds both ways; and linking gives one schema only.
-/
theorem rearranged_documents_link_alike (unambiguous : Unambiguous documents)
    (rearranged : Rearranged documents others) :
    ((∃ schema, link documents = .ok schema) ↔ ∃ other, link others = .ok other) ∧
      ∀ schema other, link documents = .ok schema → link others = .ok other →
        schema.SameEntries other := by
  refine ⟨⟨fun ⟨schema, linked⟩ => ?_, fun ⟨other, linked⟩ => ?_⟩,
    fun schema other linked alsoLinked => ?_⟩
  · obtain ⟨other, alsoLinked, -⟩ := exists_link_of_rearranged unambiguous rearranged linked
    exact ⟨other, alsoLinked⟩
  · obtain ⟨schema, alsoLinked, -⟩ :=
      exists_link_of_rearranged (unambiguous.rearranged rearranged) rearranged.symm linked
    exact ⟨schema, alsoLinked⟩
  · obtain ⟨again, linkedAgain, same⟩ := exists_link_of_rearranged unambiguous rearranged linked
    obtain rfl := Except.ok.inj (linkedAgain.symm.trans alsoLinked)
    exact same

end Documents

/-- A document with a typedef and two constants, each of which leads to what comes behind it. -/
def limitDocument : Document where
  path := "b.thrift"
  module := "b"
  definitions := [
    .constant { name := "HIGH", type := .named "N" {}, value := .identifier "LOW" },
    .constant { name := "LOW", type := .named "N" {}, value := .int 7 },
    .typedef { name := "N", target := .base .i32 }]

/-- A document that includes it, with defaults that name the constants. -/
def callDocument : Document where
  path := "a.thrift"
  module := "a"
  includes := [{ path := "b.thrift" }]
  definitions := [
    .struct { name := "P", fields := [
      { id := 1, name := "x", type := .named "b.N" {}, default := some (.identifier "b.HIGH") },
      { id := 2, name := "y", type := .base .i32, default := some (.int 1) }] },
    .service { name := "S", functions := [
      { name := "f", arguments := [
        { id := 1, name := "n", type := .named "N" {}, default := some (.identifier "LOW") }] }] }]

/-- A document with its definitions back to front. -/
def Document.reversed (document : Document) : Document :=
  { document with definitions := document.definitions.reverse }

/-- The two documents link with either one in front, and with their definitions back to front.

Proof: swapping both documents and reversing their definitions is a rearrangement, and no name in
them is ambiguous. The first order links by evaluation, so by the general theorem the other one
does, with the same entries. -/
theorem callDocument_links_in_any_order :
    Unambiguous [callDocument, limitDocument] ∧
      Rearranged [callDocument, limitDocument] [limitDocument.reversed, callDocument.reversed] ∧
        ∃ schema other, link [callDocument, limitDocument] = .ok schema ∧
          link [limitDocument.reversed, callDocument.reversed] = .ok other ∧
            schema.SameEntries other := by
  have reordered (document : Document) : document.Reordered document.reversed :=
    ⟨rfl, rfl, rfl, rfl, document.definitions.reverse_perm.symm⟩
  have rearranged : Rearranged [callDocument, limitDocument]
      [limitDocument.reversed, callDocument.reversed] :=
    ⟨[limitDocument, callDocument], .swap _ _ [], .cons (reordered _) (.cons (reordered _) .nil)⟩
  have unambiguous : Unambiguous [callDocument, limitDocument] :=
    ⟨by decide, by decide, by decide⟩
  refine ⟨unambiguous, rearranged, ?_⟩
  have succeeds : (link [callDocument, limitDocument]).isOk = true := by decide +kernel
  obtain ⟨together, same⟩ := rearranged_documents_link_alike unambiguous rearranged
  obtain ⟨schema, linked⟩ := Outcome.exists_ok_of_isOk succeeds
  obtain ⟨other, alsoLinked⟩ := together.mp ⟨schema, linked⟩
  exact ⟨schema, other, linked, alsoLinked, same schema other linked alsoLinked⟩

end SchemaCodec
