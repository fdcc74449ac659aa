import SchemaCodec.Proofs.BreadthFirst
import SchemaCodec.Proofs.DefinedNames
import SchemaCodec.Proofs.QualifiedNames
import SchemaCodec.Proofs.SeenOnce

/-!
# What a name refers to

A name refers to a definition of the document in which it stands, or to one that it qualifies with
the module of a document in sight, or to the definition of the nearest include that has one. Where
paths, modules and names are distinct and have no dots, that is what looking up a name finds.
-/

namespace SchemaCodec

open BreadthFirst

/-- A document has a definition of a name, of whatever kind. What it includes does not count. -/
def Document.Names (document : Document) (name : String) : Prop :=
  ∃ found ∈ document.definitions, found.name = name

/-- No definition is found under a name that a document does not define. -/
theorem Document.definition?_eq_none {document : Document} {name : String} :
    document.definition? name = none ↔ ¬document.Names name := by
  simp [Document.definition?, Document.Names]

namespace Scope

/-- The paths that are that many includes away from a path, in order. -/
def includedAt (scope : Scope) (path : String) (distance : Nat) : List String :=
  levelAt scope.includesOf distance [path]

/-- A document sees itself and what it includes, directly or not. -/
def Sees (scope : Scope) (document home : Document) : Prop :=
  home ∈ scope.documents ∧ ∃ distance, home.path ∈ scope.includedAt document.path distance

/-- No document of some paths has a definition of a name. -/
def Lacks (scope : Scope) (paths : List String) (name : String) : Prop :=
  ∀ document ∈ scope.documents, document.path ∈ paths → ¬document.Names name

/-- A definition is the nearest one of its name: its document is some includes away, no document
that is fewer includes away has one, and no document in front of it as many includes away. -/
structure IsNearest (scope : Scope) (document home : Document) (found : Definition) : Prop where
  isHome : home ∈ scope.documents
  isDefinition : found ∈ home.definitions
  first : ∃ distance before after,
    scope.includedAt document.path distance = before ++ home.path :: after ∧
      scope.Lacks before found.name ∧
        ∀ closer < distance, scope.Lacks (scope.includedAt document.path closer) found.name

/-- A name in a document refers to a definition: one of the document itself, or else one that is
qualified with its module, or else the nearest one. -/
inductive Refers (scope : Scope) (document : Document) (name : String) :
    Document → Definition → Prop where
  | own {found : Definition} (isDefinition : found ∈ document.definitions)
      (named : found.name = name) : Refers scope document name document found
  | qualified {home : Document} {found : Definition} (foreign : ¬document.Names name)
      (sees : scope.Sees document home) (isDefinition : found ∈ home.definitions)
      (named : home.qualified found.name = name) : Refers scope document name home found
  | nearest {home : Document} {found : Definition} (foreign : ¬document.Names name)
      (nearest : scope.IsNearest document home found) (named : found.name = name) :
      Refers scope document name home found

/-- Paths, modules and the names in each document are distinct, and modules and names have no
dots. -/
structure Orderly (scope : Scope) : Prop where
  paths : (scope.documents.map (·.path)).Nodup
  modules : (scope.documents.map (·.module)).Nodup
  names : ∀ document ∈ scope.documents, (document.definitions.map (·.name)).Nodup
  dotlessModules : ∀ document ∈ scope.documents, Dotless document.module
  dotlessNames : ∀ document ∈ scope.documents, ∀ found ∈ document.definitions, Dotless found.name

variable {scope : Scope}

namespace Orderly

variable {document home : Document} {found : Definition} {name : String}

/-- A document is found by its path. -/
theorem document?_eq_some (orderly : scope.Orderly) {path : String} :
    scope.document? path = some document ↔ document ∈ scope.documents ∧ document.path = path :=
  find?_key_eq_some orderly.paths

/-- A definition is found by its name. -/
theorem definition?_eq_some (orderly : scope.Orderly) (member : document ∈ scope.documents) :
    document.definition? name = some found ↔ found ∈ document.definitions ∧ found.name = name :=
  find?_key_eq_some (orderly.names document member)

/-- Two definitions of which one qualified name may be told, up to its end or to a further dot, are
the same. -/
theorem eq_of_qualified_append (orderly : scope.Orderly) (member : document ∈ scope.documents)
    (isHome : home ∈ scope.documents) {other : Definition}
    (isFound : found ∈ document.definitions) (isOther : other ∈ home.definitions)
    {rest more : String} (atDot : AtDot rest) (moreAtDot : AtDot more)
    (same : document.qualified found.name ++ rest = home.qualified other.name ++ more) :
    document = home ∧ found = other ∧ rest = more := by
  obtain ⟨sameModule, sameName, sameRest⟩ :=
    (Document.qualified_append_inj (orderly.dotlessModules _ member)
      (orderly.dotlessNames _ member _ isFound) atDot (orderly.dotlessModules _ isHome)
      (orderly.dotlessNames _ isHome _ isOther) moreAtDot).mp same
  obtain rfl := List.inj_on_of_nodup_map orderly.modules member isHome sameModule
  exact ⟨rfl, List.inj_on_of_nodup_map (orderly.names _ member) isFound isOther sameName, sameRest⟩

/-- Two definitions with one qualified name are the same. -/
theorem eq_of_qualified (orderly : scope.Orderly) (member : document ∈ scope.documents)
    (isHome : home ∈ scope.documents) {other : Definition}
    (isFound : found ∈ document.definitions) (isOther : other ∈ home.definitions)
    (same : document.qualified found.name = home.qualified other.name) :
    document = home ∧ found = other := by
  obtain ⟨sameHome, sameFound, -⟩ := orderly.eq_of_qualified_append member isHome isFound isOther
    (.inl rfl) (.inl rfl) (congrArg (· ++ "") same)
  exact ⟨sameHome, sameFound⟩

end Orderly

/-- The definition of a name in the document of a path. -/
def definitionAt? (scope : Scope) (name path : String) : Option (Document × Definition) :=
  (scope.document? path).bind fun document => (document.definition? name).map (document, ·)

section Nearest

variable {document home : Document} {found : Definition} {name path : String}

/-- Looking for a name in the documents of some paths is looking for it path by path. -/
theorem firstDefinition?_filterMap (paths : List String) :
    firstDefinition? (paths.filterMap scope.document?) name =
      paths.findSome? (scope.definitionAt? name) := by
  induction paths with
  | nil => rfl
  | cons path rest inductionHypothesis =>
    rw [List.findSome?_cons, definitionAt?]
    cases isThere : scope.document? path with
    | none =>
      rw [List.filterMap_cons_none isThere, inductionHypothesis]
      rfl
    | some document =>
      rw [List.filterMap_cons_some isThere, firstDefinition?, List.findSome?_cons,
        ← inductionHypothesis]
      rfl

/-- A definition is found at the path of its document. -/
theorem Orderly.definitionAt?_eq_some (orderly : scope.Orderly) :
    scope.definitionAt? name path = some (home, found) ↔
      home ∈ scope.documents ∧ home.path = path ∧ found ∈ home.definitions ∧ found.name = name := by
  simp only [definitionAt?, Option.bind_eq_some_iff, Option.map_eq_some_iff, Prod.mk.injEq]
  constructor
  · rintro ⟨_, isThere, definition, isFound, rfl, rfl⟩
    obtain ⟨isHome, isPath⟩ := orderly.document?_eq_some.mp isThere
    exact ⟨isHome, isPath, (orderly.definition?_eq_some isHome).mp isFound⟩
  · rintro ⟨isHome, isPath, isFound⟩
    exact ⟨home, orderly.document?_eq_some.mpr ⟨isHome, isPath⟩, found,
      (orderly.definition?_eq_some isHome).mpr isFound, rfl, rfl⟩

/-- Nothing is found at some paths when their documents lack the name. -/
theorem Orderly.findSome?_definitionAt?_eq_none (orderly : scope.Orderly) {paths : List String} :
    paths.findSome? (scope.definitionAt? name) = none ↔ scope.Lacks paths name := by
  rw [List.findSome?_eq_none_iff]
  constructor
  · rintro absent document member isPath ⟨found, isFound, named⟩
    have isThere := orderly.definitionAt?_eq_some.mpr ⟨member, rfl, isFound, named⟩
    simp [absent _ isPath] at isThere
  · intro lacks path isPath
    refine Option.eq_none_iff_forall_ne_some.mpr fun ⟨home, found⟩ isThere => ?_
    obtain ⟨isHome, rfl, isFound, named⟩ := orderly.definitionAt?_eq_some.mp isThere
    exact lacks home isHome isPath ⟨found, isFound, named⟩

/-- A definition is found at some paths when its document is the first that has the name. -/
theorem Orderly.findSome?_definitionAt?_eq_some (orderly : scope.Orderly) {paths : List String} :
    paths.findSome? (scope.definitionAt? name) = some (home, found) ↔
      (home ∈ scope.documents ∧ found ∈ home.definitions ∧ found.name = name) ∧
        ∃ before after, paths = before ++ home.path :: after ∧ scope.Lacks before name := by
  rw [List.findSome?_eq_some_iff]
  constructor
  · rintro ⟨before, path, after, split, isThere, absent⟩
    obtain ⟨isHome, rfl, isFound⟩ := orderly.definitionAt?_eq_some.mp isThere
    exact ⟨⟨isHome, isFound⟩, before, after, split, orderly.findSome?_definitionAt?_eq_none.mp
      (List.findSome?_eq_none_iff.mpr absent)⟩
  · rintro ⟨⟨isHome, isFound⟩, before, after, split, lacks⟩
    exact ⟨before, home.path, after, split,
      orderly.definitionAt?_eq_some.mpr ⟨isHome, rfl, isFound⟩, List.findSome?_eq_none_iff.mp
        (orderly.findSome?_definitionAt?_eq_none.mpr lacks)⟩

/-- A path without a document includes nothing. -/
theorem includesOf_of_unknown (absent : path ∉ scope.documents.map (·.path)) :
    scope.includesOf path = [] := by
  have unknown : scope.document? path = none := by
    refine List.find?_eq_none.mpr fun document member same => absent ?_
    exact List.mem_map.mpr ⟨document, member, of_decide_eq_true same⟩
  rw [includesOf, unknown]

/-- Among the documents in sight, the nearest definition of a foreign name comes first.

Proof: the documents in sight are listed by a search in breadth-first order, so what is found first
is found at the least distance and is the first one there. The document itself has no such name, and
a path without a document has no definitions. -/
theorem Orderly.firstDefinition?_visibleFrom (orderly : scope.Orderly)
    (member : document ∈ scope.documents) (foreign : ¬document.Names name) :
    firstDefinition? (scope.visibleFrom document) name = some (home, found) ↔
      scope.IsNearest document home found ∧ found.name = name := by
  have elsewhere : ∀ path, path ∉ scope.documents.map (·.path) →
      scope.definitionAt? name path = none := by
    intro path absent
    refine Option.eq_none_iff_forall_ne_some.mpr fun ⟨home, found⟩ isThere => absent ?_
    obtain ⟨isHome, isPath, -⟩ := orderly.definitionAt?_eq_some.mp isThere
    exact List.mem_map.mpr ⟨home, isHome, isPath⟩
  have started : scope.definitionAt? name document.path = none := by
    refine Option.eq_none_iff_forall_ne_some.mpr fun ⟨home, found⟩ isThere => foreign ?_
    obtain ⟨isHome, isPath, isFound⟩ := orderly.definitionAt?_eq_some.mp isThere
    obtain rfl := List.inj_on_of_nodup_map orderly.paths isHome member isPath
    exact ⟨found, isFound⟩
  rw [visibleFrom, firstDefinition?_filterMap,
    findSome?_reach orderly.paths (fun _ => includesOf_of_unknown) elsewhere started]
  simp only [orderly.findSome?_definitionAt?_eq_some, orderly.findSome?_definitionAt?_eq_none]
  constructor
  · rintro ⟨distance, ⟨⟨isHome, isFound, rfl⟩, before, after, split, lacks⟩, nearest⟩
    exact ⟨⟨isHome, isFound, distance, before, after, split, lacks, nearest⟩, rfl⟩
  · rintro ⟨⟨isHome, isFound, distance, before, after, split, lacks, nearest⟩, rfl⟩
    exact ⟨distance, ⟨⟨isHome, isFound, rfl⟩, before, after, split, lacks⟩, nearest⟩

/-- A document sees itself and the documents that are visible from it.

Proof: the search lists the paths other than that of the document that lie at some distance from it,
and each of them is the path of one document. -/
theorem Orderly.mem_visible (orderly : scope.Orderly) (member : document ∈ scope.documents) :
    home ∈ document :: scope.visibleFrom document ↔ scope.Sees document home := by
  have isNode (isHome : home ∈ scope.documents) : home.path ∈ scope.documents.map (·.path) :=
    List.mem_map.mpr ⟨home, isHome, rfl⟩
  constructor
  · intro near
    rcases List.mem_cons.mp near with rfl | visible
    · exact ⟨member, 0, List.mem_singleton_self _⟩
    · obtain ⟨path, isReached, isThere⟩ := List.mem_filterMap.mp visible
      obtain ⟨isHome, rfl⟩ := orderly.document?_eq_some.mp isThere
      exact ⟨isHome, exists_levelAt_of_mem_reach isReached⟩
  · rintro ⟨isHome, isIncluded⟩
    by_cases same : home.path = document.path
    · exact List.mem_cons.mpr (.inl (List.inj_on_of_nodup_map orderly.paths isHome member same))
    · have isReached := (mem_reach orderly.paths (fun _ => includesOf_of_unknown) (isNode isHome)
        same).mpr isIncluded
      exact List.mem_cons_of_mem _ (List.mem_filterMap.mpr
        ⟨home.path, isReached, orderly.document?_eq_some.mpr ⟨isHome, rfl⟩⟩)

/-- Among the documents of a module in sight there is one definition of a name.

Proof: a module is that of one document, so what is left of the documents in sight is this document,
perhaps several times, and the first definition of the name is the one that it has. -/
theorem Orderly.firstDefinition?_ofModule (orderly : scope.Orderly) {documents : List Document}
    (known : ∀ document ∈ documents, document ∈ scope.documents) {module : String} :
    firstDefinition? (documents.filter (·.module = module)) name = some (home, found) ↔
      home ∈ documents ∧ home.module = module ∧ found ∈ home.definitions ∧ found.name = name := by
  constructor
  · intro isFirst
    obtain ⟨document, among, isThere⟩ := List.exists_of_findSome?_eq_some isFirst
    obtain ⟨definition, isFound, same⟩ := Option.map_eq_some_iff.mp isThere
    obtain ⟨rfl, rfl⟩ := Prod.mk.inj same
    obtain ⟨isNear, isModule⟩ := List.mem_filter.mp among
    exact ⟨isNear, of_decide_eq_true isModule,
      (orderly.definition?_eq_some (known _ isNear)).mp isFound⟩
  · rintro ⟨isNear, rfl, isFound⟩
    have among : home ∈ documents.filter (·.module = home.module) :=
      List.mem_filter.mpr ⟨isNear, decide_eq_true rfl⟩
    -- All documents that are left have the module of the one that is wanted, so they are that one.
    have same : ∀ document ∈ documents.filter (·.module = home.module), document = home := by
      intro document member
      obtain ⟨isOther, sameModule⟩ := List.mem_filter.mp member
      exact List.inj_on_of_nodup_map orderly.modules (known _ isOther) (known _ isNear)
        (of_decide_eq_true sameModule)
    have isThere : home.definition? name = some found :=
      (orderly.definition?_eq_some (known _ isNear)).mpr isFound
    obtain ⟨before, after, split⟩ := List.append_of_mem among
    cases before with
    | nil =>
      rw [split, firstDefinition?, List.nil_append, List.findSome?_cons, isThere]
      rfl
    | cons document rest =>
      obtain rfl := same document (split ▸ List.mem_cons_self)
      rw [split, firstDefinition?, List.cons_append, List.findSome?_cons, isThere]
      rfl

end Nearest

/-- A name that is qualified with a module is split behind it. -/
theorem Orderly.splitFirstDot?_qualified (orderly : scope.Orderly) {home : Document}
    (isHome : home ∈ scope.documents) (name : String) :
    splitFirstDot? (home.qualified name) = some (home.module, name) :=
  splitFirstDot?_eq_some.mpr ⟨orderly.dotlessModules home isHome, String.append_assoc.symm⟩

/-- The name of a definition is not split. -/
theorem Orderly.splitFirstDot?_name (orderly : scope.Orderly) {home : Document}
    (isHome : home ∈ scope.documents) {found : Definition} (isFound : found ∈ home.definitions) :
    splitFirstDot? found.name = none :=
  splitFirstDot?_eq_none.mpr (orderly.dotlessNames home isHome found isFound)

/-- Looking up a name finds what it refers to.

Proof: by the steps of the lookup, which are the cases of what a name refers to. An own definition
comes first. A name with a dot is a module and a name in it, and plain names have no dot, so it is
split where the module ends; any other name is searched among the visible documents, nearest first.
-/
theorem Orderly.lookup_eq_some (orderly : scope.Orderly) {document home : Document}
    (member : document ∈ scope.documents) {name : String} {found : Definition} :
    scope.lookup document name = some (home, found) ↔ scope.Refers document name home found := by
  have known : ∀ other ∈ document :: scope.visibleFrom document, other ∈ scope.documents :=
    fun other near => ((orderly.mem_visible member).mp near).1
  constructor
  · intro isFound
    cases isOwn : document.definition? name with
    | some own =>
      simp only [lookup, isOwn, Option.some.injEq, Prod.mk.injEq] at isFound
      obtain ⟨rfl, rfl⟩ := isFound
      obtain ⟨isDefinition, named⟩ := (orderly.definition?_eq_some member).mp isOwn
      exact .own isDefinition named
    | none =>
      have foreign := Document.definition?_eq_none.mp isOwn
      cases isSplit : splitFirstDot? name with
      | some parts =>
        simp only [lookup, isOwn, isSplit] at isFound
        obtain ⟨near, isModule, isDefinition, isRest⟩ :=
          (orderly.firstDefinition?_ofModule known).mp isFound
        obtain ⟨-, isName⟩ := splitFirstDot?_eq_some.mp isSplit
        refine .qualified foreign ((orderly.mem_visible member).mp near) isDefinition ?_
        rw [Document.qualified, isModule, isRest, String.append_assoc, isName]
      | none =>
        simp only [lookup, isOwn, isSplit] at isFound
        obtain ⟨isNearest, named⟩ :=
          (orderly.firstDefinition?_visibleFrom member foreign).mp isFound
        exact .nearest foreign isNearest named
  · intro refers
    cases refers with
    | own isDefinition named =>
      have isOwn := (orderly.definition?_eq_some member).mpr ⟨isDefinition, named⟩
      simp only [lookup, isOwn]
    | qualified foreign sees isDefinition named =>
      subst named
      simp only [lookup, Document.definition?_eq_none.mpr foreign,
        orderly.splitFirstDot?_qualified sees.1]
      exact (orderly.firstDefinition?_ofModule known).mpr
        ⟨(orderly.mem_visible member).mpr sees, rfl, isDefinition, rfl⟩
    | nearest foreign isNearest named =>
      subst named
      simp only [lookup, Document.definition?_eq_none.mpr foreign,
        orderly.splitFirstDot?_name isNearest.isHome isNearest.isDefinition]
      exact (orderly.firstDefinition?_visibleFrom member foreign).mpr ⟨isNearest, rfl⟩

/-- A name refers to a definition of a document of the scope. -/
theorem Refers.mem {document home : Document} {name : String} {found : Definition}
    (refers : scope.Refers document name home found) (member : document ∈ scope.documents) :
    home ∈ scope.documents ∧ found ∈ home.definitions := by
  cases refers with
  | own isDefinition => exact ⟨member, isDefinition⟩
  | qualified _ sees isDefinition => exact ⟨sees.1, isDefinition⟩
  | nearest _ isNearest => exact ⟨isNearest.isHome, isNearest.isDefinition⟩

end Scope

end SchemaCodec
