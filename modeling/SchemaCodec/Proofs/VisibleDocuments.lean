import SchemaCodec.Proofs.DiscoveryOrder
import SchemaCodec.Proofs.NameResolution
import SchemaCodec.Proofs.WellFormedDocuments

/-!
# The documents in sight

A document sees all documents to which its includes lead, whatever leads back to it or to one
document more than once. Each of them is seen once, and none behind one that is more includes away.
So a name that a document does not define itself is taken from a document that is the least number
of includes away, and it is missing only where it is missing in all documents in sight.
-/

namespace SchemaCodec

open BreadthFirst

namespace Scope

/-- One document includes another one of the scope, or itself. -/
def Includes (scope : Scope) (document home : Document) : Prop :=
  home ∈ scope.documents ∧ ∃ found ∈ document.includes, found.path = home.path

/-- The least number of includes that lead from one document to another. -/
structure IsAway (scope : Scope) (document home : Document) (distance : Nat) : Prop where
  there : home.path ∈ scope.includedAt document.path distance
  least : ∀ closer < distance, home.path ∉ scope.includedAt document.path closer

/-- Each path is that of one document, and every include is the path of a document. -/
structure Joined (scope : Scope) : Prop where
  paths : (scope.documents.map (·.path)).Nodup
  includes : ∀ document ∈ scope.documents, ∀ found ∈ document.includes,
    ∃ home ∈ scope.documents, home.path = found.path

/-- A document sees exactly the others to which its includes lead, each once and nearest first. -/
structure SeesNearestFirst (scope : Scope) (document : Document) : Prop where
  reached : ∀ home, home ∈ scope.visibleFrom document ↔
    Relation.TransGen scope.Includes document home ∧ home ≠ document
  once : ((scope.visibleFrom document).map (·.path)).Nodup
  ordered : (scope.visibleFrom document).Pairwise fun nearer farther => ∃ near far,
    scope.IsAway document nearer near ∧ scope.IsAway document farther far ∧ near ≤ far

/-- A name is taken from a document of the least number of includes away among those that define
it, and it is found wherever there is one. -/
structure TakesNearest (scope : Scope) (document : Document) (name : String) : Prop where
  found : ∀ home definition, scope.lookup document name = some (home, definition) →
    definition ∈ home.definitions ∧ definition.name = name ∧
      Relation.TransGen scope.Includes document home ∧
        ∃ distance, scope.IsAway document home distance ∧
          ∀ other, Relation.TransGen scope.Includes document other → other.Names name →
            ∀ farther, scope.IsAway document other farther → distance ≤ farther
  missing : scope.lookup document name = none ↔
    ∀ home, Relation.TransGen scope.Includes document home → ¬home.Names name

variable {scope : Scope} {document home : Document}

/-- Where a document is some includes away, there is a least number of them. -/
theorem exists_isAway
    (somewhere : ∃ distance, home.path ∈ scope.includedAt document.path distance) :
    ∃ distance, scope.IsAway document home distance := by
  classical
  exact ⟨Nat.find somewhere, Nat.find_spec somewhere, fun _ closer => Nat.find_min somewhere closer⟩

/-- The least number of includes is one number. -/
theorem IsAway.le {near far : Nat} (isAway : scope.IsAway document home near)
    (there : home.path ∈ scope.includedAt document.path far) : near ≤ far := by
  by_contra closer
  exact isAway.least far (Nat.lt_of_not_le closer) there

/-- Every scope that documents form is joined, so names are looked up in no other scope. -/
theorem joined_of_ofDocuments {documents : List Document}
    (formed : ofDocuments documents = .ok scope) : scope.Joined := by
  obtain ⟨rfl, -, includes, -⟩ := ofDocuments_eq_ok_iff.mp formed
  exact ⟨seenOnce_start.mp seenOnce_firstOfPaths, includes⟩

namespace Joined

/-- A document is found by its path. -/
theorem document?_eq_some (joined : scope.Joined) {path : String} :
    scope.document? path = some document ↔ document ∈ scope.documents ∧ document.path = path :=
  find?_key_eq_some joined.paths

/-- A path leads to the includes of its document. -/
theorem includesOf_path (joined : scope.Joined) (member : document ∈ scope.documents) :
    scope.includesOf document.path = document.includes.map (·.path) := by
  rw [includesOf, joined.document?_eq_some.mpr ⟨member, rfl⟩]

/-- The paths to which the path of a document leads are those of the documents to which the document
leads.

Proof: by induction on the steps, both ways. A path that is included by a document of the scope
belongs to a document of the scope, since all includes are there, and the path identifies it. -/
theorem leads_iff (joined : scope.Joined) (member : document ∈ scope.documents) {path : String} :
    Relation.ReflTransGen (fun first second => second ∈ scope.includesOf first) document.path path ↔
      ∃ home ∈ scope.documents, home.path = path ∧
        Relation.ReflTransGen scope.Includes document home := by
  constructor
  · intro leads
    induction leads with
    | refl => exact ⟨document, member, rfl, .refl⟩
    | tail _ isNext inductionHypothesis =>
      obtain ⟨between, isBetween, rfl, leads⟩ := inductionHypothesis
      rw [joined.includesOf_path isBetween] at isNext
      obtain ⟨found, isFound, rfl⟩ := List.mem_map.mp isNext
      obtain ⟨home, isHome, same⟩ := joined.includes between isBetween found isFound
      exact ⟨home, isHome, same, leads.tail ⟨isHome, found, isFound, same.symm⟩⟩
  · rintro ⟨home, isHome, rfl, leads⟩
    induction leads with
    | refl => exact .refl
    | @tail between home before includes inductionHypothesis =>
      have isBetween : between ∈ scope.documents := by
        rcases before.cases_tail with same | ⟨_, -, includesIt⟩
        · exact same ▸ member
        · exact includesIt.1
      obtain ⟨-, found, isFound, same⟩ := includes
      refine (inductionHypothesis isBetween).tail ?_
      rw [joined.includesOf_path isBetween]
      exact List.mem_map.mpr ⟨found, isFound, same⟩

/-- A document lies some includes away exactly where the includes lead to it. -/
theorem exists_includedAt_iff (joined : scope.Joined) (member : document ∈ scope.documents)
    (isHome : home ∈ scope.documents) :
    (∃ distance, home.path ∈ scope.includedAt document.path distance) ↔
      Relation.ReflTransGen scope.Includes document home := by
  rw [show (∃ distance, home.path ∈ scope.includedAt document.path distance) ↔ _ from
    exists_levelAt_iff, joined.leads_iff member]
  constructor
  · rintro ⟨other, isOther, same, leads⟩
    exact List.inj_on_of_nodup_map joined.paths isOther isHome same ▸ leads
  · exact fun leads => ⟨home, isHome, rfl, leads⟩

/-- Where includes lead to another document, they do so in one step or more. -/
theorem transGen_iff (joined : scope.Joined) (member : document ∈ scope.documents)
    (away : home ≠ document) :
    Relation.TransGen scope.Includes document home ↔ home ∈ scope.documents ∧
      ∃ distance, home.path ∈ scope.includedAt document.path distance := by
  constructor
  · intro leads
    obtain ⟨_, -, isHome, -⟩ := Relation.TransGen.tail'_iff.mp leads
    exact ⟨isHome, (joined.exists_includedAt_iff member isHome).mpr leads.to_reflTransGen⟩
  · rintro ⟨isHome, somewhere⟩
    rcases Relation.reflTransGen_iff_eq_or_transGen.mp
      ((joined.exists_includedAt_iff member isHome).mp somewhere) with same | leads
    · exact absurd same away
    · exact leads

/-- Every path that is reached is that of a document, so none is lost.

Proof: each path that is listed is that of a document to which the first one leads, so looking it up
succeeds and gives the path back. -/
theorem map_path_visibleFrom (joined : scope.Joined) (member : document ∈ scope.documents) :
    (scope.visibleFrom document).map (·.path) =
      reach (scope.documents.map (·.path)) scope.includesOf document.path := by
  have kept : ∀ paths : List String, (∀ path ∈ paths, ∃ home ∈ scope.documents, home.path = path) →
      (paths.filterMap scope.document?).map (·.path) = paths := by
    intro paths
    induction paths with
    | nil => exact fun _ => rfl
    | cons path rest inductionHypothesis =>
      intro known
      obtain ⟨⟨home, isHome, same⟩, others⟩ := List.forall_mem_cons.mp known
      have isThere : scope.document? path = some home :=
        joined.document?_eq_some.mpr ⟨isHome, same⟩
      rw [List.filterMap_cons_some isThere, List.map_cons, same, inductionHypothesis others]
  refine kept _ fun path listed => ?_
  obtain ⟨home, isHome, same, -⟩ :=
    (joined.leads_iff member).mp (exists_levelAt_iff.mp (exists_levelAt_of_mem_reach listed))
  exact ⟨home, isHome, same⟩

/-- A document sees the documents whose paths are reached.

Proof: the search lists a path exactly if it lies at some distance and is not the one where it
starts. A path belongs to one document, so documents may be spoken of in place of paths. -/
theorem mem_visibleFrom (joined : scope.Joined) (member : document ∈ scope.documents) :
    home ∈ scope.visibleFrom document ↔
      Relation.TransGen scope.Includes document home ∧ home ≠ document := by
  have isThere : home ∈ scope.visibleFrom document ↔ home ∈ scope.documents ∧
      home.path ∈ reach (scope.documents.map (·.path)) scope.includesOf document.path := by
    rw [visibleFrom, List.mem_filterMap]
    constructor
    · rintro ⟨path, listed, found⟩
      obtain ⟨isHome, rfl⟩ := joined.document?_eq_some.mp found
      exact ⟨isHome, listed⟩
    · rintro ⟨isHome, listed⟩
      exact ⟨home.path, listed, joined.document?_eq_some.mpr ⟨isHome, rfl⟩⟩
  rw [isThere]
  constructor
  · rintro ⟨isHome, listed⟩
    have away : home ≠ document := by
      rintro rfl
      exact ne_start_of_mem_reach joined.paths (fun _ => includesOf_of_unknown) listed rfl
    exact ⟨(joined.transGen_iff member away).mpr ⟨isHome, exists_levelAt_of_mem_reach listed⟩, away⟩
  · rintro ⟨leads, away⟩
    obtain ⟨isHome, somewhere⟩ := (joined.transGen_iff member away).mp leads
    have other : home.path ≠ document.path := fun same =>
      away (List.inj_on_of_nodup_map joined.paths isHome member same)
    exact ⟨isHome, (mem_reach joined.paths (fun _ => includesOf_of_unknown)
      (List.mem_map.mpr ⟨home, isHome, rfl⟩) other).mpr somewhere⟩

/-- What a document sees is ordered by the number of includes that lead to it.

Proof: the search lists paths by their distance, each of them once. The distance of a document is
that of its path, and the least distance at which the farther one lies is no less than that of the
nearer one. -/
theorem seesNearestFirst (joined : scope.Joined) (member : document ∈ scope.documents) :
    scope.SeesNearestFirst document where
  reached home := joined.mem_visibleFrom member
  once := by
    rw [joined.map_path_visibleFrom member]
    exact nodup_reach joined.paths fun _ => includesOf_of_unknown
  ordered := by
    have ordered := pairwise_reach document.path joined.paths
      fun _ => includesOf_of_unknown
    rw [← joined.map_path_visibleFrom member, List.pairwise_map] at ordered
    refine ordered.imp_of_mem fun {nearer farther} isNearer isFarther closest => ?_
    have isAway {home : Document} (visible : home ∈ scope.visibleFrom document) :
        ∃ distance, scope.IsAway document home distance := by
      obtain ⟨leads, away⟩ := (joined.mem_visibleFrom member).mp visible
      exact exists_isAway ((joined.transGen_iff member away).mp leads).2
    obtain ⟨near, nearest⟩ := isAway isNearer
    obtain ⟨far, isFar⟩ := isAway isFarther
    obtain ⟨closer, within, isThere⟩ := closest far isFar.there
    exact ⟨near, far, nearest, isFar, (nearest.le isThere).trans within⟩

/-- A name without dots that a document does not define is looked for in the documents in sight. -/
theorem lookup_of_foreign {name : String} (foreign : ¬document.Names name)
    (dotless : Dotless name) :
    scope.lookup document name = firstDefinition? (scope.visibleFrom document) name := by
  simp only [lookup, Document.definition?_eq_none.mpr foreign, splitFirstDot?_eq_none.mpr dotless]

/-- A name is taken from the first document in sight that defines it.

Proof: the documents in sight are listed by distance, and the first one with the name is taken.
Those in front of it lack the name and those behind it are no nearer, so no document with the name
is nearer than it. None is found exactly if all of them lack it. -/
theorem takesNearest (joined : scope.Joined) (member : document ∈ scope.documents) {name : String}
    (foreign : ¬document.Names name) (dotless : Dotless name) :
    scope.TakesNearest document name := by
  have sees := joined.seesNearestFirst member
  -- A document that defines the name is not the one in which it is looked up.
  have visible {other : Document} (leads : Relation.TransGen scope.Includes document other)
      (names : other.Names name) : other ∈ scope.visibleFrom document :=
    (sees.reached other).mpr ⟨leads, fun same => foreign (same ▸ names)⟩
  constructor
  · intro home definition isFound
    rw [lookup_of_foreign foreign dotless, firstDefinition?, List.findSome?_eq_some_iff] at isFound
    obtain ⟨before, first, after, split, isFirst, lacking⟩ := isFound
    obtain ⟨found, isThere, same⟩ := Option.map_eq_some_iff.mp isFirst
    obtain ⟨rfl, rfl⟩ := Prod.mk.inj same
    have listed : first ∈ scope.visibleFrom document := by simp [split]
    obtain ⟨leads, away⟩ := (sees.reached first).mp listed
    obtain ⟨distance, isAway⟩ := exists_isAway ((joined.transGen_iff member away).mp leads).2
    refine ⟨List.mem_of_find?_eq_some isThere, by simpa using List.find?_some isThere, leads,
      distance, isAway, fun other leadsThere names farther isFarther => ?_⟩
    have ordered := sees.ordered
    have isVisible := visible leadsThere names
    rw [split] at ordered isVisible
    obtain ⟨-, behind, -⟩ := List.pairwise_append.mp ordered
    rcases List.mem_append.mp isVisible with early | late
    · have lacks := Option.map_eq_none_iff.mp (lacking other early)
      exact absurd names (Document.definition?_eq_none.mp lacks)
    · rcases List.mem_cons.mp late with rfl | isAfter
      · exact isAway.le isFarther.there
      · obtain ⟨near, far, isNear, isFar, within⟩ := (List.pairwise_cons.mp behind).1 other isAfter
        exact ((isAway.le isNear.there).trans within).trans (isFar.le isFarther.there)
  · rw [lookup_of_foreign foreign dotless, firstDefinition?, List.findSome?_eq_none_iff]
    simp only [Option.map_eq_none_iff, Document.definition?_eq_none]
    constructor
    · exact fun lacks home leads names => lacks home (visible leads names) names
    · exact fun lacks home isVisible => lacks home ((sees.reached home).mp isVisible).1

end Joined

end Scope

/-- Documents are seen breadth-first, and none of them is missed. In a scope in which every include
is the path of one document, each document sees exactly the others to which its includes lead, each
once and none behind one that is more includes away. A name that it does not define, and that has no
module in front of it, is taken from a document of the least number of includes away that defines
it, and it is missing exactly where no document to which the includes lead defines it.

Proof: what a document sees is listed by the breadth-first search over the paths of includes, and
paths stand for documents one to one. The first one in this list with the name is the one from which
the name is taken. -/
theorem documents_are_seen_nearest_first {scope : Scope} (joined : scope.Joined)
    {document : Document} (member : document ∈ scope.documents) :
    scope.SeesNearestFirst document ∧
      ∀ name, ¬document.Names name → Dotless name → scope.TakesNearest document name :=
  ⟨joined.seesNearestFirst member, fun _ => joined.takesNearest member⟩

/-- A document of some enums that includes some paths. -/
def enumDocument (path : String) (includes enums : List String) : Document where
  path := path
  module := moduleOfPath path
  includes := includes.map fun path => { path }
  definitions := enums.map fun name => .enum { name }

/-- A document that includes itself, and another one twice. -/
def shopDocument : Document :=
  enumDocument "shop" ["goods", "shop", "goods", "staff"] ["Counter"]

/-- Documents that lead back to each other, the last one to nothing. -/
def shopScope : Scope where
  documents := [shopDocument, enumDocument "weights" [] ["Unit", "Scale"],
    enumDocument "money" ["goods", "weights"] ["Unit"], enumDocument "goods" ["money", "shop"] [],
    enumDocument "staff" ["money"] []]

/-- Of two documents that define a name the nearer one is taken, though the other one is listed in
front of it. -/
theorem shop_sees_nearest_first :
    shopScope.Joined ∧ shopDocument ∈ shopScope.documents ∧
      (shopScope.visibleFrom shopDocument).map (·.path) = ["goods", "staff", "money", "weights"] ∧
      shopScope.SeesNearestFirst shopDocument ∧ ¬shopDocument.Names "Unit" ∧ Dotless "Unit" ∧
      shopScope.TakesNearest shopDocument "Unit" ∧
      (shopScope.lookup shopDocument "Unit").map (·.1.path) = some "money" ∧
      (shopScope.lookup shopDocument "Scale").map (·.1.path) = some "weights" ∧
      (shopScope.lookup shopDocument "Price").map (·.1.path) = none := by
  have joined : shopScope.Joined := ⟨by decide, by decide⟩
  have member : shopDocument ∈ shopScope.documents := List.mem_cons_self
  have foreign : ¬shopDocument.Names "Unit" :=
    Document.definition?_eq_none.mp rfl
  obtain ⟨sees, takes⟩ := documents_are_seen_nearest_first joined member
  exact ⟨joined, member, by decide +kernel, sees, foreign, by decide, takes _ foreign (by decide),
    by decide +kernel, by decide +kernel, by decide +kernel⟩

end SchemaCodec
