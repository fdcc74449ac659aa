import SchemaCodec.Proofs.Counterparts

/-!
# Parts of a scope

Some documents of a scope make up a part of it when every document that they include is among them.
From a document of the part only documents of the part are in sight, at the same distances. So names
refer to the same definitions in the part, and documents that are orderly and well formed are so
without the others.
-/

namespace SchemaCodec

open BreadthFirst

/-- Some documents, with all that they include, in the order in which all documents are given. -/
structure PartOf (part documents : List Document) : Prop where
  among : part.Sublist documents
  includes : ∀ document ∈ part, ∀ included ∈ document.includes,
    ∃ home ∈ part, home.path = included.path

namespace Scope.Orderly

variable {part scope : Scope} {document home : Document}
  (orderly : scope.Orderly) (isPart : PartOf part.documents scope.documents)

include orderly isPart

/-- A part of orderly documents is orderly. -/
theorem ofPart : part.Orderly where
  paths := orderly.paths.sublist (isPart.among.map _)
  modules := orderly.modules.sublist (isPart.among.map _)
  names document member := orderly.names document (isPart.among.subset member)
  dotlessModules document member := orderly.dotlessModules document (isPart.among.subset member)
  dotlessNames document member := orderly.dotlessNames document (isPart.among.subset member)

/-- Each path of the part includes what it includes among all documents. -/
theorem includesOf_part (member : document ∈ part.documents) :
    part.includesOf document.path = scope.includesOf document.path := by
  have here : part.document? document.path = some document :=
    (orderly.ofPart isPart).document?_eq_some.mpr ⟨member, rfl⟩
  have there : scope.document? document.path = some document :=
    orderly.document?_eq_some.mpr ⟨isPart.among.subset member, rfl⟩
  rw [includesOf, includesOf, here, there]

/-- What a path of the part includes is in the part. -/
theorem mem_includesOf_part (member : document ∈ part.documents) :
    ∀ path ∈ part.includesOf document.path, path ∈ part.documents.map (·.path) := by
  have here : part.document? document.path = some document :=
    (orderly.ofPart isPart).document?_eq_some.mpr ⟨member, rfl⟩
  intro path isIncluded
  rw [includesOf, here] at isIncluded
  obtain ⟨included, among, rfl⟩ := List.mem_map.mp isIncluded
  obtain ⟨home, isHome, samePath⟩ := isPart.includes document member included among
  exact List.mem_map.mpr ⟨home, isHome, samePath⟩

/-- At each distance from a document of the part lie the same paths, all of them of the part. The
induction is on the distance. -/
theorem includedAt_part (member : document ∈ part.documents) (distance : Nat) :
    part.includedAt document.path distance = scope.includedAt document.path distance ∧
      ∀ path ∈ part.includedAt document.path distance, path ∈ part.documents.map (·.path) := by
  induction distance with
  | zero =>
    refine ⟨rfl, fun path isStart => ?_⟩
    obtain rfl : path = document.path := List.mem_singleton.mp isStart
    exact List.mem_map_of_mem member
  | succ distance inductionHypothesis =>
    obtain ⟨same, known⟩ := inductionHypothesis
    have further (around : Scope) : around.includedAt document.path (distance + 1) =
        (around.includedAt document.path distance).flatMap around.includesOf := levelAt_succ'
    rw [further, further, ← same]
    constructor
    · refine List.flatMap_congr fun path isPath => ?_
      obtain ⟨home, isHome, rfl⟩ := List.mem_map.mp (known path isPath)
      exact orderly.includesOf_part isPart isHome
    · intro path isPath
      obtain ⟨between, isBetween, isNext⟩ := List.mem_flatMap.mp isPath
      obtain ⟨home, isHome, rfl⟩ := List.mem_map.mp (known between isBetween)
      exact orderly.mem_includesOf_part isPart isHome path isNext

/-- A document with a path of the part is in the part. -/
theorem mem_part (isHome : home ∈ scope.documents)
    (samePath : home.path ∈ part.documents.map (·.path)) : home ∈ part.documents := by
  obtain ⟨document, member, same⟩ := List.mem_map.mp samePath
  rwa [List.inj_on_of_nodup_map orderly.paths isHome (isPart.among.subset member) same.symm]

/-- What is in sight from a document of the part is in the part. -/
theorem sees_part (member : document ∈ part.documents) :
    part.Sees document home ↔ scope.Sees document home := by
  constructor
  · rintro ⟨isHome, distance, isIncluded⟩
    refine ⟨isPart.among.subset isHome, distance, ?_⟩
    rwa [← (orderly.includedAt_part isPart member distance).1]
  · rintro ⟨isHome, distance, isIncluded⟩
    obtain ⟨same, known⟩ := orderly.includedAt_part isPart member distance
    rw [← same] at isIncluded
    exact ⟨orderly.mem_part isPart isHome (known _ isIncluded), distance, isIncluded⟩

/-- The documents of some paths of the part lack a name in the part as among all documents. -/
theorem lacks_part {paths : List String}
    (known : ∀ path ∈ paths, path ∈ part.documents.map (·.path)) {name : String} :
    part.Lacks paths name ↔ scope.Lacks paths name := by
  constructor
  · intro lacks home isHome among
    exact lacks home (orderly.mem_part isPart isHome (known _ among)) among
  · intro lacks home isHome among
    exact lacks home (isPart.among.subset isHome) among

/-- The nearest definition for a document of the part is in the part.

Proof: at each distance the same paths lie in both scopes, and they are paths of the part. So what
lacks a name in front of the definition, and what lacks it at smaller distances, is the same in
both. -/
theorem isNearest_part (member : document ∈ part.documents) {found : Definition} :
    part.IsNearest document home found ↔ scope.IsNearest document home found := by
  have level (distance : Nat) := orderly.includedAt_part isPart member distance
  have closer (distance : Nat) :
      part.Lacks (part.includedAt document.path distance) found.name ↔
        scope.Lacks (scope.includedAt document.path distance) found.name := by
    rw [← (level distance).1]
    exact orderly.lacks_part isPart (level distance).2
  have front {distance : Nat} {before after : List String}
      (split : part.includedAt document.path distance = before ++ home.path :: after) :
      part.Lacks before found.name ↔ scope.Lacks before found.name := by
    refine orderly.lacks_part isPart fun path isBefore => (level distance).2 path ?_
    rw [split]
    exact List.mem_append_left _ isBefore
  constructor
  · rintro ⟨isHome, isDefinition, distance, before, after, split, lacks, nearest⟩
    refine ⟨isPart.among.subset isHome, isDefinition, distance, before, after, ?_,
      (front split).mp lacks, fun less isLess => (closer less).mp (nearest less isLess)⟩
    rwa [← (level distance).1]
  · rintro ⟨isHome, isDefinition, distance, before, after, split, lacks, nearest⟩
    rw [← (level distance).1] at split
    have isPath : home.path ∈ part.includedAt document.path distance := by
      rw [split]
      exact List.mem_append_right _ List.mem_cons_self
    exact ⟨orderly.mem_part isPart isHome ((level distance).2 _ isPath), isDefinition, distance,
      before, after, split, (front split).mpr lacks,
      fun less isLess => (closer less).mpr (nearest less isLess)⟩

/-- A name in a document of the part refers to the same definition.

Proof: by the three ways in which a name refers. Own definitions are those of the document; what it
sees and what is nearest to it is the same in both scopes. -/
theorem refers_part (member : document ∈ part.documents) {name : String} {found : Definition} :
    part.Refers document name home found ↔ scope.Refers document name home found := by
  have sees {home : Document} : part.Sees document home ↔ scope.Sees document home :=
    orderly.sees_part isPart member
  have nearest {home : Document} {found : Definition} :
      part.IsNearest document home found ↔ scope.IsNearest document home found :=
    orderly.isNearest_part isPart member
  constructor
  · intro refers
    cases refers with
    | own isDefinition named => exact .own isDefinition named
    | qualified foreign isSeen isDefinition named =>
      exact .qualified foreign (sees.mp isSeen) isDefinition named
    | nearest foreign isNearest named => exact .nearest foreign (nearest.mp isNearest) named
  · intro refers
    cases refers with
    | own isDefinition named => exact .own isDefinition named
    | qualified foreign isSeen isDefinition named =>
      exact .qualified foreign (sees.mpr isSeen) isDefinition named
    | nearest foreign isNearest named => exact .nearest foreign (nearest.mpr isNearest) named

/-- Looking up a name in a document of the part finds the same definition. -/
theorem lookup_part (member : document ∈ part.documents) (name : String) :
    part.lookup document name = scope.lookup document name := by
  refine Option.ext fun ⟨home, found⟩ => ?_
  rw [(orderly.ofPart isPart).lookup_eq_some member,
    orderly.lookup_eq_some (isPart.among.subset member)]
  exact orderly.refers_part isPart member

/-- Each document of the part is its own counterpart among all documents. -/
theorem counterparts_part : part.Counterparts scope id where
  moved member := isPart.among.subset member
  reordered {document} _ := .refl document
  lookup member name := by
    rw [orderly.lookup_part isPart member]
    exact Option.map_id'.symm

end Scope.Orderly

/-- A part of documents that are orderly and well formed is so, too.

Proof: each definition of the part is in order there because it is among all documents and names
refer to the same definitions in both. A cycle of typedefs in the part is one among all documents,
step by step. -/
theorem Scope.Lawful.ofPart {part scope : Scope} (lawful : scope.Lawful)
    (isPart : PartOf part.documents scope.documents) : part.Lawful where
  orderly := lawful.orderly.ofPart isPart
  wellFormed :=
    { modules := (lawful.orderly.ofPart isPart).modules
      includes := isPart.includes
      names := (lawful.orderly.ofPart isPart).names
      definitions := by
        intro document member found isFound
        apply ((lawful.orderly.counterparts_part isPart).validDefinition_iff
          (lawful.orderly.ofPart isPart) lawful.orderly member).mp
        exact lawful.wellFormed.definitions document (isPart.among.subset member) found isFound
      acyclic := by
        intro document member definition isTypedef cycle
        -- A typedef that leads back to itself in the part does so among all documents.
        have known {first second : Document × TypedefDefinition}
            (isFirst : first.1 ∈ part.documents)
            (leads : Relation.TransGen part.LeadsTo first second) :
            second.1 ∈ part.documents ∧ Relation.TransGen scope.LeadsTo first second := by
          induction leads with
          | single leads =>
            obtain ⟨name, span, isTarget, refers⟩ := leads
            refine ⟨(refers.mem isFirst).1, .single ⟨name, span, isTarget, ?_⟩⟩
            exact (lawful.orderly.refers_part isPart isFirst).mp refers
          | tail _ leads inductionHypothesis =>
            obtain ⟨isBetween, before⟩ := inductionHypothesis
            obtain ⟨name, span, isTarget, refers⟩ := leads
            refine ⟨(refers.mem isBetween).1, before.tail ⟨name, span, isTarget, ?_⟩⟩
            exact (lawful.orderly.refers_part isPart isBetween).mp refers
        exact lawful.wellFormed.acyclic document (isPart.among.subset member) definition isTypedef
          (known member cycle).2 }

end SchemaCodec
