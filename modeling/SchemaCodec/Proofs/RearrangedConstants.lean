import SchemaCodec.Proofs.GroundedConstants
import SchemaCodec.Proofs.RearrangedDeclarations

/-!
# Constants in another order

Constants that are grounded can be linked in any order: whichever has its turn first, those that its
literal names come before it in the grounded order, so they can be linked on the way and no cycle is
met. Each of them gets the value that it has there.
-/

namespace SchemaCodec.Scope

open Linking

variable {scope other : Scope} {move : Document → Document} {document home : Document}
  {before last linking : Linking}

/-- A state of linking that is on its way to the types and constants of another one. -/
structure Agrees (other : Scope) (last linking : Linking) : Prop where
  typedefs : other.HasTypedefs linking.schema
  types : last.schema.SurvivesIn linking.schema
  constants : linking.schema.constants ⊆ last.schema.constants
  indexed : linking.schema.Indexed

/-- A state agrees with more constants that are among those of the other one. -/
theorem Agrees.plus (agrees : other.Agrees last linking) {more : List Constant}
    (among : more ⊆ last.schema.constants) (indexed : (linking.plus more).schema.Indexed) :
    other.Agrees last (linking.plus more) where
  typedefs := agrees.typedefs.survives (.of_types rfl rfl)
  types := agrees.types.trans (.of_types rfl rfl)
  constants := List.append_subset.mpr ⟨agrees.constants, among⟩
  indexed := indexed

/-- A step that leaves an earlier state alone, while its twin gives the same from every state that
agrees with the last one, and adds no constants but those of the earlier state. -/
def Follows (other : Scope) (last before : Linking) {α : Type} (step twin : LinkM α) : Prop :=
  ∀ {result : α} {later : Linking}, step before = .ok (result, later) → later = before ∧
    ∀ {linking : Linking}, other.Agrees last linking → ∃ more, more ⊆ before.schema.constants ∧
      (linking.plus more).schema.Indexed ∧ twin linking = .ok (result, linking.plus more)

/-- What follows for the parts of a run follows for the run.

Proof: for each way of building a run. Nothing is added by what ends at once; of two runs one after
the other, the second one starts from a state to which constants of the first were added, and so
still agrees with the last state. -/
theorem mirroring_follows (other : Scope) (precedes : before.Precedes last) :
    Mirroring (fun _ => True) (other.Follows last before) where
  pure value := by
    intro result later ran
    obtain ⟨rfl, rfl⟩ := pure_eq_ok.mp ran
    exact ⟨rfl, fun agrees => ⟨[], by simp, by simpa using agrees.indexed, by simp [pure_eq_ok]⟩⟩
  fail error twin := by
    intro result later ran
    exact (fail_eq_ok.mp ran).elim
  bind first second := by
    intro result later ran
    obtain ⟨middle, _, here, there⟩ := bind_eq_ok.mp ran
    obtain ⟨rfl, again⟩ := first here
    obtain ⟨rfl, alsoAgain⟩ := second middle there
    refine ⟨rfl, fun agrees => ?_⟩
    obtain ⟨more, among, indexed, isFirst⟩ := again agrees
    obtain ⟨others, alsoAmong, alsoIndexed, isSecond⟩ :=
      alsoAgain (agrees.plus (List.Subset.trans among precedes.constants.subset) indexed)
    refine ⟨more ++ others, List.append_subset.mpr ⟨among, alsoAmong⟩, ?_⟩
    rw [← plus_plus]
    exact ⟨alsoIndexed, bind_eq_ok.mpr ⟨middle, _, isFirst, isSecond⟩⟩
  schema each := by
    intro result later ran
    obtain ⟨_, _, isSchema, ran⟩ := bind_eq_ok.mp ran
    obtain ⟨rfl, rfl⟩ := schema?_eq_ok.mp isSchema
    refine ⟨(each (Schema.SurvivesIn.refl _).tells ran).1, fun {linking} agrees => ?_⟩
    obtain ⟨-, again⟩ := each (precedes.types.trans agrees.types).tells ran
    obtain ⟨more, among, indexed, isLast⟩ := again agrees
    exact ⟨more, among, indexed, bind_eq_ok.mpr ⟨linking.schema, linking, rfl, isLast⟩⟩

/-- Some constants can be linked from every state that agrees, within a bound and while others are
being linked: each of them with constants among them. -/
def LinksWithin (scope other : Scope) (move : Document → Document) (last : Linking) (bound : Nat)
    (above : List String) (constants : List Constant) : Prop :=
  ∀ document ∈ scope.documents, ∀ definition, .constant definition ∈ document.definitions →
    ∀ constant ∈ constants, document.qualified definition.name = constant.name →
      ∀ {linking}, other.Agrees last linking → ∃ more, more ⊆ constants ∧
        (linking.plus more).schema.Indexed ∧
        other.linkConstant bound above (move document) definition linking =
          .ok (constant.value, linking.plus more) ∧
        constant ∈ (linking.plus more).schema.constants

/-- What is recalled of an earlier state can be linked where all of its constants can be. -/
theorem LinksWithin.follows {bound : Nat} {above : List String}
    (precedes : before.Precedes last) (indexed : last.schema.Indexed)
    (links : scope.LinksWithin other move last bound above before.schema.constants) :
    ∀ home ∈ scope.documents, ∀ definition, .constant definition ∈ home.definitions →
      other.Follows last before (scope.recalled home definition)
        (other.linkConstant bound above (move home) definition) := by
  intro home isHome definition isDefinition value later ran
  obtain ⟨linked, isFound, rfl, rfl⟩ := recalled_eq_ok.mp ran
  obtain ⟨-, linkedName⟩ := indexed.constant?_eq_some.mp (precedes.constant? isFound)
  refine ⟨rfl, fun agrees => ?_⟩
  obtain ⟨more, among, indexedThen, linkedAgain, -⟩ := links home isHome definition isDefinition
    linked (NameIndex.mem_of_lookup? isFound) linkedName.symm agrees
  exact ⟨more, among, indexedThen, linkedAgain⟩

section Order

variable (relocation : scope.Relocation other move) (orderly : scope.Orderly)

/-- A constant in front of another one has another name. -/
theorem name_ne_of_mem_front (indexed : last.schema.Indexed)
    {front back : List Constant} {constant : Constant}
    (split : last.schema.constants = front ++ constant :: back) :
    ∀ earlier ∈ front, earlier.name ≠ constant.name := by
  intro earlier isEarlier sameName
  have names := indexed.constants.nodup
  rw [split, List.map_append, List.map_cons] at names
  exact List.disjoint_of_nodup_append names (List.mem_map_of_mem isEarlier)
    (sameName ▸ List.mem_cons_self)

include relocation in
/-- A constant that is there already is the one that is there at last. -/
theorem linkConstant_of_found (indexed : last.schema.Indexed)
    (agrees : other.Agrees last linking) {constant linked : Constant}
    (isLast : constant ∈ last.schema.constants) (member : document ∈ scope.documents)
    {definition : ConstantDefinition} (named : document.qualified definition.name = constant.name)
    (found : linking.schema.constant? constant.name = some linked) {bound : Nat}
    {above : List String} :
    other.linkConstant bound above (move document) definition linking =
        .ok (constant.value, linking) ∧
      constant ∈ linking.schema.constants := by
  obtain ⟨isLinked, linkedName⟩ := agrees.indexed.constant?_eq_some.mp found
  obtain rfl := List.inj_on_of_nodup_map indexed.constants.nodup (agrees.constants isLinked) isLast
    linkedName
  refine ⟨linkConstant_eq_ok.mpr (.inl ⟨linked, ?_, rfl, rfl⟩), isLinked⟩
  rwa [relocation.qualified member, named]

include relocation orderly

/-- A constant that is not there yet is added, where the constants that its literal names can be
linked.

Proof: the literal converts in the other documents as it did before, since the constants that it
names can be linked there, and its type resolves to the same one. The name is not taken yet, neither
by what was linked nor by what the literal added. -/
theorem exists_addConstant {constant : Constant} {definition : ConstantDefinition}
    (origin : scope.Origin before document definition constant) (precedes : before.Precedes last)
    {bound : Nat} {above : List String}
    (constants : ∀ home ∈ scope.documents, ∀ next, .constant next ∈ home.definitions →
      other.Follows last before (scope.recalled home next)
        (other.linkConstant bound (constant.name :: above) (move home) next))
    (apart : ∀ earlier ∈ before.schema.constants, earlier.name ≠ constant.name)
    (absent : linking.schema.constant? constant.name = none) (new : constant.name ∉ above)
    (agrees : other.Agrees last linking) :
    ∃ more, more ⊆ before.schema.constants ∧
      (linking.plus (more ++ [constant])).schema.Indexed ∧
      other.linkConstant (bound + 1) above (move document) definition linking =
        .ok (constant.value, linking.plus (more ++ [constant])) := by
  have twice : ConvertedTwice (fun _ => True) (other.Follows last before) scope other move
      scope.recalled (other.linkConstant bound (constant.name :: above))
      ⟨document, definition.span, constant.name⟩ :=
    .of_counterparts (relocation.counterparts orderly) (mirroring_follows other precedes)
      origin.member constants
  obtain ⟨-, again⟩ := mirrors_convert twice _ trivial origin.value
  obtain ⟨more, among, indexed, isValue⟩ := again agrees
  have free : (linking.plus more).schema.constantPositions.position? constant.name = none := by
    refine indexed.constants.position?_eq_none_iff.mpr (indexed.constants.lookup?_eq_none.mpr ?_)
    intro earlier isEarlier
    rcases List.mem_append.mp isEarlier with old | added
    · exact agrees.indexed.constants.lookup?_eq_none.mp absent earlier old
    · exact apart earlier (among added)
  have resolved : other.resolve (move document) definition.type = .ok constant.type :=
    ((relocation.counterparts orderly).resolve origin.member _).trans origin.type
  have isType := (agrees.typedefs.linkReference_eq_ok (relocation.moved origin.member)).mpr
    ⟨resolved, rfl⟩
  have sameName : (move document).qualified definition.name = constant.name :=
    (relocation.qualified origin.member _).trans origin.name
  refine ⟨more, among, ?_⟩
  rw [← plus_plus]
  refine ⟨indexed_plus indexed free, linkConstant_eq_ok.mpr (.inr ?_)⟩
  rw [sameName]
  refine ⟨absent, new, bound, rfl, addConstant_eq_ok.mpr ?_⟩
  rw [sameName]
  exact ⟨constant.type, linking, isType, linking.plus more, isValue, free, rfl⟩

variable (grounded : scope.Grounded last) (indexed : last.schema.Indexed)

include grounded indexed

/-- A constant can be linked behind those in front of it, when these can be linked with and without
it above them: its literal names no others.

Proof: the final constant may have been linked already, and then it is found. Otherwise its
definition is the one that it comes from, and it is added behind the constants in front of it, which
can be linked while it is itself being linked. -/
theorem LinksWithin.append {front back : List Constant} {final : Constant}
    (split : last.schema.constants = front ++ final :: back) {bound : Nat} {above : List String}
    (links : scope.LinksWithin other move last (bound + 1) above front)
    (below : scope.LinksWithin other move last bound (final.name :: above) front)
    (new : final.name ∉ above) :
    scope.LinksWithin other move last (bound + 1) above (front ++ [final]) := by
  intro document member definition isDefinition constant isThere named linking agrees
  have inFront : front ⊆ front ++ [final] := List.subset_append_left front [final]
  rcases List.mem_append.mp isThere with before | isFinal
  · obtain ⟨more, among, linked⟩ :=
      links document member definition isDefinition constant before named agrees
    exact ⟨more, List.Subset.trans among inFront, linked⟩
  · obtain rfl := List.mem_singleton.mp isFinal
    cases found : linking.schema.constant? constant.name with
    | some linked =>
      have isLast : constant ∈ last.schema.constants := by simp [split]
      obtain ⟨ran, added⟩ :=
        linkConstant_of_found relocation indexed agrees isLast member named found
      exact ⟨[], by simp, by simpa using agrees.indexed, by simpa using ran, by simpa using added⟩
    | none =>
      obtain ⟨before, precedes, rfl, home, source, origin⟩ := grounded.origins split
      obtain ⟨rfl, same⟩ := orderly.eq_of_qualified origin.member member origin.isDefinition
        isDefinition (origin.name.trans named.symm)
      obtain rfl := Definition.constant.inj same
      obtain ⟨more, among, indexedThen, ran⟩ := exists_addConstant relocation orderly origin
        precedes (below.follows precedes indexed) (name_ne_of_mem_front indexed split) found new
        agrees
      refine ⟨more ++ [constant], ?_, indexedThen, ran, by simp [Linking.plus]⟩
      exact List.append_subset.mpr ⟨List.Subset.trans among inFront, List.subset_append_right _ _⟩

/-- The first of the grounded constants can be linked within their number and while none of them is
being linked. The induction is on these constants, from the last one to the first.

With one constant more, one step more is allowed, and its own name is put above those in front of
it. It is not among their names, since names are distinct, so no cycle is reported. -/
theorem linksWithin_of_grounded {front back : List Constant}
    (split : last.schema.constants = front ++ back) {bound : Nat} {above : List String}
    (enough : front.length ≤ bound) (new : ∀ earlier ∈ front, earlier.name ∉ above) :
    scope.LinksWithin other move last bound above front := by
  induction front using List.reverseRecOn generalizing back bound above with
  | nil =>
    intro document member definition isDefinition constant isThere
    simp at isThere
  | append_singleton front final inductionHypothesis =>
    have splitHere : last.schema.constants = front ++ final :: back := by
      rw [split, List.append_assoc, List.singleton_append]
    have shorter : front.length + 1 ≤ bound := by simpa using enough
    obtain ⟨fewer, rfl⟩ : ∃ fewer, bound = fewer + 1 := ⟨bound - 1, by omega⟩
    have newBefore : ∀ earlier ∈ front, earlier.name ∉ above := by
      intro earlier isEarlier
      exact new earlier (List.mem_append_left _ isEarlier)
    have newBelow : ∀ earlier ∈ front, earlier.name ∉ final.name :: above := by
      intro earlier isEarlier
      have apart := name_ne_of_mem_front indexed splitHere earlier isEarlier
      exact List.not_mem_cons_of_ne_of_not_mem apart (newBefore earlier isEarlier)
    exact LinksWithin.append relocation orderly grounded indexed splitHere
      (inductionHypothesis splitHere (Nat.le_of_succ_le shorter) newBefore)
      (inductionHypothesis splitHere (Nat.le_of_succ_le_succ shorter) newBelow)
      (new final (by simp))

end Order

section Pass

/-- There are no more constants than definitions. -/
theorem Grounded.length_le (grounded : scope.Grounded last) (indexed : last.schema.Indexed) :
    last.schema.constants.length ≤ scope.size := by
  have known : last.schema.constants.map (·.name) ⊆
      scope.definitions.map fun pair => pair.1.qualified pair.2.name := by
    intro name isName
    obtain ⟨constant, isThere, rfl⟩ := List.mem_map.mp isName
    obtain ⟨_, document, definition, origin⟩ := grounded.exists_origin isThere
    exact List.mem_map.mpr ⟨(document, .constant definition),
      mem_definitions.mpr ⟨origin.member, origin.isDefinition⟩, origin.name⟩
  have short := (List.subperm_of_subset indexed.constants.nodup known).length_le
  rwa [List.length_map, List.length_map, length_definitions] at short

variable (relocation : scope.Relocation other move) (orderly : scope.Orderly)
  (grounded : scope.Grounded last) (indexed : last.schema.Indexed)

include relocation orderly grounded indexed

/-- All grounded constants can be linked from every state that agrees. -/
theorem linksWithin_size :
    scope.LinksWithin other move last (other.size + 1) [] last.schema.constants := by
  have enough : last.schema.constants.length ≤ other.size + 1 := by
    rw [relocation.size]
    exact Nat.le_succ_of_le (grounded.length_le indexed)
  have new : ∀ earlier ∈ last.schema.constants, earlier.name ∉ ([] : List String) := by simp
  exact linksWithin_of_grounded relocation orderly grounded indexed (List.append_nil _).symm enough
    new

/-- A default that can be converted with the last constants alone is converted from every state that
agrees. -/
theorem exists_convertDefault {pending : PendingDefault} {value : Value}
    (member : pending.document ∈ scope.documents)
    (converted : scope.Converts last pending value) (agrees : other.Agrees last linking) :
    ∃ more, more ⊆ last.schema.constants ∧ (linking.plus more).schema.Indexed ∧
      other.convertDefault (pending.moved move) linking = .ok (value, linking.plus more) := by
  have links := linksWithin_size relocation orderly grounded indexed
  have twice : ConvertedTwice (fun _ => True) (other.Follows last last) scope other move
      scope.recalled (other.linkConstant (other.size + 1) [])
      ⟨pending.document, pending.span, pending.owner ++ "." ++ pending.name⟩ :=
    .of_counterparts (relocation.counterparts orderly) (mirroring_follows other (.refl last))
      member (links.follows (.refl last) indexed)
  obtain ⟨-, again⟩ := mirrors_convert twice _ trivial converted
  exact again agrees

section Complete

variable (complete : ∀ document definition, (document, .constant definition) ∈ scope.definitions →
  ∃ linked, last.schema.constant? (document.qualified definition.name) = some linked)

include complete

/-- A definition of the other documents has its turn: a constant is linked, with what its literal
names, and any other definition is passed over.

Proof: by the kind of the definition. A constant was linked in the first order and so is among the
last constants, all of which can be linked here; its name tells it from the others. -/
theorem exists_linkIfConstant {found : Definition} (isHome : home ∈ other.documents)
    (isFound : found ∈ home.definitions) (agrees : other.Agrees last linking) :
    ∃ more, more ⊆ last.schema.constants ∧ (linking.plus more).schema.Indexed ∧
      other.linkIfConstant home found linking = .ok ((), linking.plus more) ∧
      ∀ constant ∈ last.schema.constants, ∀ definition, found = .constant definition →
        home.qualified definition.name = constant.name →
          constant ∈ (linking.plus more).schema.constants := by
  cases found with
  | constant definition =>
    obtain ⟨document, member, rfl⟩ := relocation.exists_moved isHome
    have isDefinition := (relocation.mem_definitions member).mp isFound
    obtain ⟨linked, isLinked⟩ :=
      complete document definition (mem_definitions.mpr ⟨member, isDefinition⟩)
    obtain ⟨isThere, linkedName⟩ := indexed.constant?_eq_some.mp isLinked
    have links := linksWithin_size relocation orderly grounded indexed
    obtain ⟨more, among, indexedThen, ran, added⟩ :=
      links document member definition isDefinition linked isThere linkedName.symm agrees
    refine ⟨more, among, indexedThen, bind_eq_ok.mpr ⟨_, _, ran, rfl⟩, ?_⟩
    intro constant isConstant other same named
    obtain rfl := Definition.constant.inj same
    have sameName : constant.name = linked.name := by
      rw [← named, relocation.qualified member, linkedName]
    obtain rfl := List.inj_on_of_nodup_map indexed.constants.nodup isConstant isThere sameName
    exact added
  | _ => exact ⟨[], by simp, by simpa using agrees.indexed, by rw [plus_nil]; rfl, by simp⟩

/-- Definitions of the other documents have their turns one after another. Each constant is added
whose definition is among them.

Proof: by induction on the definitions. What the first one adds is among the last constants, so the
state still agrees with them when the others have their turns, and what was added stays. -/
theorem exists_linkConstants {pairs : List (Document × Definition)}
    (known : pairs ⊆ other.definitions) (agrees : other.Agrees last linking) :
    ∃ more, more ⊆ last.schema.constants ∧ (linking.plus more).schema.Indexed ∧
      (pairs.forM fun pair => other.linkIfConstant pair.1 pair.2) linking =
        .ok ((), linking.plus more) ∧
      ∀ constant ∈ last.schema.constants, ∀ home definition,
        (home, .constant definition) ∈ pairs → home.qualified definition.name = constant.name →
          constant ∈ (linking.plus more).schema.constants := by
  induction pairs generalizing linking with
  | nil => exact ⟨[], by simp, by simpa using agrees.indexed, by rw [plus_nil]; rfl, by simp⟩
  | cons pair rest inductionHypothesis =>
    obtain ⟨isHome, isFound⟩ := mem_definitions.mp (known List.mem_cons_self)
    obtain ⟨more, among, indexedHere, here, added⟩ :=
      exists_linkIfConstant relocation orderly grounded indexed complete isHome isFound agrees
    obtain ⟨others, alsoAmong, indexedThere, there, each⟩ :=
      inductionHypothesis (List.subset_of_cons_subset known) (agrees.plus among indexedHere)
    refine ⟨more ++ others, List.append_subset.mpr ⟨among, alsoAmong⟩, ?_, ?_, ?_⟩
    · rwa [← plus_plus]
    · refine forM_cons_eq_ok.mpr ⟨linking.plus more, here, ?_⟩
      rwa [← plus_plus]
    · intro constant isConstant home definition isTurn named
      rw [← plus_plus]
      rcases List.mem_cons.mp isTurn with rfl | isBehind
      · exact (Precedes.plus _ others).constants.subset (added constant isConstant _ rfl named)
      · exact each constant isConstant home definition isBehind named

/-- All constants of the other documents can be linked, and these are the ones that are there at
last. -/
theorem exists_linkAllConstants (agrees : other.Agrees last linking) :
    ∃ more, (other.definitions.forM fun pair => other.linkIfConstant pair.1 pair.2) linking =
        .ok ((), linking.plus more) ∧
      other.Agrees last (linking.plus more) ∧
      last.schema.constants ⊆ (linking.plus more).schema.constants := by
  obtain ⟨more, among, indexedThen, ran, each⟩ := exists_linkConstants relocation orderly grounded
    indexed complete (List.Subset.refl _) agrees
  refine ⟨more, ran, agrees.plus among indexedThen, fun constant isThere => ?_⟩
  obtain ⟨_, document, definition, origin⟩ := grounded.exists_origin isThere
  have isTurn := mem_definitions.mpr ⟨relocation.moved origin.member,
    (relocation.mem_definitions origin.member).mpr origin.isDefinition⟩
  have named := (relocation.qualified origin.member _).trans origin.name
  exact each constant isThere _ definition isTurn named

end Complete

end Pass

end SchemaCodec.Scope
