import SchemaCodec.Proofs.Counterparts

/-!
# Documents in another order

Documents may be given in another order, and each document may list its definitions in another
order. Such a rearrangement moves every document to its counterpart, which has the same definitions.
Whatever names refer to and types stand for depends on neither order: it is found in the counterpart
when it was found in the document.
-/

namespace SchemaCodec

/-- Documents in another order, each with its definitions in another order. Nothing else in a
document changes, the order of its includes neither. -/
def Rearranged (documents others : List Document) : Prop :=
  ∃ middle, documents.Perm middle ∧ List.Forall₂ Document.Reordered middle others

namespace Scope

/-- A scope with other documents, to which those of a scope are moved. -/
structure Relocation (scope other : Scope) (move : Document → Document) : Prop where
  documents : (scope.documents.map move).Perm other.documents
  reordered : ∀ document ∈ scope.documents, document.Reordered (move document)

/-- A scope is moved to itself. -/
theorem Relocation.refl (scope : Scope) : scope.Relocation scope id where
  documents := by simp
  reordered document _ := .refl document

/-- Documents with distinct paths are moved to those of a rearrangement, each to the one that has
its path.

Proof: a document is moved to the first of the others with its path. Paths are distinct, so this is
the one that it was reordered to, and moving all of them gives the others in some order. -/
theorem exists_relocation {documents others : List Document}
    (paths : (documents.map (·.path)).Nodup) (rearranged : Rearranged documents others) :
    ∃ move, (Scope.mk documents).Relocation (Scope.mk others) move := by
  obtain ⟨middle, permuted, each⟩ := rearranged
  let move (document : Document) : Document :=
    (others.find? (·.path = document.path)).getD document
  have samePaths : others.map (·.path) = middle.map (·.path) := by
    refine List.forall₂_eq_eq_eq ▸ List.forall₂_map_left_iff.mpr ?_
    exact List.forall₂_map_right_iff.mpr (each.flip.imp fun _ _ reordered => reordered.path)
  have distinct : (others.map (·.path)).Nodup :=
    samePaths ▸ (permuted.map (·.path)).nodup_iff.mp paths
  have moved : List.Forall₂ (fun document other => document.Reordered other ∧ move document = other)
      middle others := by
    refine Pairing.forall₂_imp_right each fun document other member reordered => ?_
    have found : others.find? (·.path = document.path) = some other :=
      (find?_key_eq_some distinct).mpr ⟨member, reordered.path⟩
    exact ⟨reordered, by simp only [move, found, Option.getD_some]⟩
  have isMoved : middle.map move = others := by
    refine List.forall₂_eq_eq_eq ▸ List.forall₂_map_left_iff.mpr ?_
    exact moved.imp fun _ _ both => both.2
  refine ⟨move, isMoved ▸ permuted.map move, fun document member => ?_⟩
  exact Pairing.forall_left moved (fun both => both.2 ▸ both.1) document (permuted.subset member)

namespace Relocation

variable {scope other : Scope} {move : Document → Document} {document home : Document}

/-- A document is moved to one of the other scope. -/
theorem moved (relocation : scope.Relocation other move) (member : document ∈ scope.documents) :
    move document ∈ other.documents :=
  relocation.documents.subset (List.mem_map_of_mem member)

/-- A document of the other scope is the counterpart of one. -/
theorem exists_moved (relocation : scope.Relocation other move) (isHome : home ∈ other.documents) :
    ∃ document ∈ scope.documents, move document = home :=
  List.mem_map.mp (relocation.documents.symm.subset isHome)

/-- The counterpart qualifies names in the same way. -/
theorem qualified (relocation : scope.Relocation other move) (member : document ∈ scope.documents)
    (name : String) : (move document).qualified name = document.qualified name :=
  (relocation.reordered document member).qualified name

/-- The counterpart has the same definitions. -/
theorem mem_definitions (relocation : scope.Relocation other move)
    (member : document ∈ scope.documents) {found : Definition} :
    found ∈ (move document).definitions ↔ found ∈ document.definitions :=
  (relocation.reordered document member).mem_definitions

/-- Moving keeps what each document is called. -/
theorem map_moved (relocation : scope.Relocation other move) {key : Document → String}
    (keeps : ∀ {document other : Document}, document.Reordered other → key other = key document) :
    (other.documents.map key).Perm (scope.documents.map key) := by
  refine (relocation.documents.symm.map key).trans ?_
  rw [List.map_map]
  refine List.Perm.of_eq (List.map_congr_left fun document member => ?_)
  exact keeps (relocation.reordered document member)

/-- The definitions of the other scope are those of the scope, each with the counterpart of its
document. -/
theorem definitions (relocation : scope.Relocation other move) :
    (scope.definitions.map fun pair => (move pair.1, pair.2)).Perm other.definitions := by
  refine .trans ?_ (relocation.documents.flatMap_right _)
  rw [Scope.definitions, List.map_flatMap, List.flatMap_map]
  refine .flatMap_left _ fun document member => ?_
  rw [List.map_map]
  exact (relocation.reordered document member).definitions.map (move document, ·)

/-- There are as many definitions. -/
theorem size (relocation : scope.Relocation other move) : other.size = scope.size := by
  rw [← length_definitions, ← length_definitions, ← relocation.definitions.length_eq,
    List.length_map]

/-- Orderly documents are moved to orderly ones. -/
theorem orderly (relocation : scope.Relocation other move) (orderly : scope.Orderly) :
    other.Orderly where
  paths := (relocation.map_moved (·.path)).nodup_iff.mpr orderly.paths
  modules := (relocation.map_moved (·.module)).nodup_iff.mpr orderly.modules
  names home isHome := by
    obtain ⟨document, member, rfl⟩ := relocation.exists_moved isHome
    exact ((relocation.reordered document member).definitions.map _).nodup_iff.mp
      (orderly.names document member)
  dotlessModules home isHome := by
    obtain ⟨document, member, rfl⟩ := relocation.exists_moved isHome
    exact (relocation.reordered document member).module ▸ orderly.dotlessModules document member
  dotlessNames home isHome found isFound := by
    obtain ⟨document, member, rfl⟩ := relocation.exists_moved isHome
    have isThere := (relocation.mem_definitions member).mp isFound
    exact orderly.dotlessNames document member found isThere

/-- The same documents lack a name. -/
theorem lacks_iff (relocation : scope.Relocation other move) {paths : List String}
    {name : String} : other.Lacks paths name ↔ scope.Lacks paths name := by
  constructor
  · intro lacks document member among
    rw [← (relocation.reordered document member).names_iff]
    refine lacks _ (relocation.moved member) ?_
    rwa [(relocation.reordered document member).path]
  · intro lacks home isHome among
    obtain ⟨document, member, rfl⟩ := relocation.exists_moved isHome
    rw [(relocation.reordered document member).names_iff]
    exact lacks document member ((relocation.reordered document member).path ▸ among)

section References

variable (relocation : scope.Relocation other move) (orderly : scope.Orderly)

include relocation orderly

/-- The document of a path is moved to that of the path. -/
theorem document? (path : String) : other.document? path = (scope.document? path).map move := by
  refine Option.ext fun home => ?_
  rw [(relocation.orderly orderly).document?_eq_some, Option.map_eq_some_iff]
  simp only [orderly.document?_eq_some]
  constructor
  · rintro ⟨isHome, rfl⟩
    obtain ⟨document, member, rfl⟩ := relocation.exists_moved isHome
    exact ⟨document, ⟨member, (relocation.reordered document member).path.symm⟩, rfl⟩
  · rintro ⟨document, ⟨member, rfl⟩, rfl⟩
    exact ⟨relocation.moved member, (relocation.reordered document member).path⟩

/-- Each path includes what it includes. -/
theorem includesOf : other.includesOf = scope.includesOf := by
  funext path
  rw [Scope.includesOf, Scope.includesOf, relocation.document? orderly]
  cases isThere : scope.document? path with
  | none => rfl
  | some document =>
    have member := (orderly.document?_eq_some.mp isThere).1
    exact congrArg (List.map (·.path)) (relocation.reordered document member).includes

/-- A name refers to the counterpart of what it refers to.

Proof: by the three ways in which a name refers. What a document includes, sees and lacks is told by
paths and definitions, which the counterparts share, so each way holds on one side exactly if it
holds on the other. -/
theorem refers_iff (member : document ∈ scope.documents) (isHome : home ∈ scope.documents)
    {name : String} {found : Definition} :
    other.Refers (move document) name (move home) found ↔
      scope.Refers document name home found := by
  have samePath := (relocation.reordered document member).path
  have names : (move document).Names name ↔ document.Names name :=
    (relocation.reordered document member).names_iff
  have sameHome := (relocation.reordered home isHome).path
  have sameInclusions (distance : Nat) : other.includedAt (move document).path distance =
      scope.includedAt document.path distance := by
    rw [includedAt, includedAt, relocation.includesOf orderly, samePath]
  have sees : other.Sees (move document) (move home) ↔ scope.Sees document home := by
    simp only [Sees, relocation.moved isHome, isHome, sameInclusions, sameHome]
  have nearest : other.IsNearest (move document) (move home) found ↔
      scope.IsNearest document home found := by
    constructor
    · rintro ⟨-, isDefinition, first⟩
      simp only [sameInclusions, sameHome, relocation.lacks_iff] at first
      exact ⟨isHome, (relocation.mem_definitions isHome).mp isDefinition, first⟩
    · rintro ⟨-, isDefinition, first⟩
      refine ⟨relocation.moved isHome, (relocation.mem_definitions isHome).mpr isDefinition, ?_⟩
      simpa only [sameInclusions, sameHome, relocation.lacks_iff] using first
  constructor
  · intro refers
    generalize isThere : move home = there at refers
    cases refers with
    | own isDefinition named =>
      have same : home = document := List.inj_on_of_nodup_map orderly.paths isHome member (by
        rw [← sameHome, ← samePath, isThere])
      subst same
      exact .own ((relocation.mem_definitions isHome).mp isDefinition) named
    | qualified foreign isSeen isDefinition named =>
      subst isThere
      refine .qualified (names.not.mp foreign) (sees.mp isSeen)
        ((relocation.mem_definitions isHome).mp isDefinition) ?_
      rw [← relocation.qualified isHome, named]
    | nearest foreign isNearest named =>
      subst isThere
      exact .nearest (names.not.mp foreign) (nearest.mp isNearest) named
  · intro refers
    cases refers with
    | own isDefinition named =>
      exact .own ((relocation.mem_definitions member).mpr isDefinition) named
    | qualified foreign isSeen isDefinition named =>
      refine .qualified (names.not.mpr foreign) (sees.mpr isSeen)
        ((relocation.mem_definitions isHome).mpr isDefinition) ?_
      rw [relocation.qualified isHome, named]
    | nearest foreign isNearest named =>
      exact .nearest (names.not.mpr foreign) (nearest.mpr isNearest) named

/-- Looking up a name finds the counterpart of what it finds. -/
theorem lookup (member : document ∈ scope.documents) (name : String) :
    other.lookup (move document) name =
      (scope.lookup document name).map fun pair => (move pair.1, pair.2) := by
  refine Option.ext fun ⟨home, found⟩ => ?_
  rw [(relocation.orderly orderly).lookup_eq_some (relocation.moved member),
    Option.map_eq_some_iff]
  constructor
  · intro refers
    obtain ⟨origin, isOrigin, rfl⟩ :=
      relocation.exists_moved (refers.mem (relocation.moved member)).1
    exact ⟨(origin, found), (orderly.lookup_eq_some member).mpr
      ((relocation.refers_iff orderly member isOrigin).mp refers), rfl⟩
  · rintro ⟨⟨origin, definition⟩, isFound, same⟩
    obtain ⟨rfl, rfl⟩ := Prod.mk.inj same
    obtain refers := (orderly.lookup_eq_some member).mp isFound
    exact (relocation.refers_iff orderly member (refers.mem member).1).mpr refers

/-- Each document is moved to its counterpart. -/
theorem counterparts : scope.Counterparts other move where
  moved := relocation.moved
  reordered member := relocation.reordered _ member
  lookup := relocation.lookup orderly

end References

end Relocation

end Scope

end SchemaCodec
