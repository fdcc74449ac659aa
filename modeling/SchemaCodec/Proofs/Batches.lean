import Mathlib.Data.List.Pairwise
import SchemaCodec.Proofs.InsertionOrder

/-!
# Sets and maps collected from a batch

A batch of elements or entries is sorted, equal members in the order in which they were given, and
of each run of equal members the last one stays. Inserting the same members one after another keeps
the first form of an element or key instead. The two ways differ in nothing that the order on values
sees: a set has an equal of each element, and a map has under each key the last value that was given
for it.

Main statements: `find?_batch` says which member of a batch stays, and `order_setOfBatch` and
`order_mapOfBatch` say that a batch and insertion one after another build equal values.
-/

namespace SchemaCodec.Value

section Runs

variable {α : Type} {comparison : α → α → Ordering}

/-- A probe picks what compares equal to it. -/
def Picks (comparison : α → α → Ordering) (probe member : α) : Prop := comparison probe member = .eq

/-- What a probe picks can be computed. -/
instance (probe : α) : DecidablePred (Picks comparison probe) := fun member =>
  inferInstanceAs (Decidable (comparison probe member = .eq))

/-- What stays of the runs was there. -/
theorem mem_of_mem_lastOfRuns {members : List α} {member : α}
    (stays : member ∈ lastOfRuns comparison members) : member ∈ members := by
  fun_induction lastOfRuns comparison members with
  | case1 => exact stays
  | case2 only => exact stays
  | case3 first second rest same inductionHypothesis =>
    exact List.mem_cons_of_mem _ (inductionHypothesis stays)
  | case4 first second rest differs inductionHypothesis =>
    rcases List.mem_cons.mp stays with rfl | behind
    · exact List.mem_cons_self
    · exact List.mem_cons_of_mem _ (inductionHypothesis behind)

/-- What stays of a batch was given. -/
theorem mem_of_mem_batch {given : List α} {member : α}
    (stays : member ∈ lastOfRuns comparison (arrange comparison given)) : member ∈ given :=
  (List.mergeSort_perm _ _).mem_iff.mp (mem_of_mem_lastOfRuns stays)

variable [Std.TransCmp comparison]

/-- Of two members, one is not above the other. -/
theorem isLE_or_isLE (first second : α) :
    ((comparison first second).isLE || (comparison second first).isLE) = true := by
  have swapped : comparison second first = (comparison first second).swap :=
    Std.OrientedCmp.eq_swap
  rw [swapped]
  cases comparison first second <;> rfl

/-- A list is arranged in ascending order. -/
theorem pairwise_arrange (given : List α) :
    (arrange comparison given).Pairwise fun first second => (comparison first second).isLE :=
  List.pairwise_mergeSort (fun _ _ _ => Std.TransCmp.isLE_trans) isLE_or_isLE given

/-- What a probe picks stands in the arranged list as it was given.

Proof: the picked members are in order already, so sorting keeps them as a sublist of the arranged
list. They are as many as the probe picks there, because sorting only rearranges. -/
theorem filter_arrange (probe : α) (given : List α) :
    (arrange comparison given).filter (Picks comparison probe ·) =
      given.filter (Picks comparison probe ·) := by
  have inOrder : (given.filter (Picks comparison probe ·)).Pairwise
      fun first second => (comparison first second).isLE := by
    refine List.pairwise_of_forall_mem_list fun first isFirst second isSecond => ?_
    have equal := of_decide_eq_true (List.mem_filter.mp isFirst).2
    have alsoEqual := of_decide_eq_true (List.mem_filter.mp isSecond).2
    exact Ordering.isLE_of_eq_eq
      (Std.TransCmp.eq_trans (Std.OrientedCmp.eq_symm equal) alsoEqual)
  have among := (List.sublist_mergeSort (fun _ _ _ => Std.TransCmp.isLE_trans) isLE_or_isLE inOrder
    List.filter_sublist).filter (Picks comparison probe ·)
  have asMany := ((List.mergeSort_perm given fun first second =>
    (comparison first second).isLE).filter (Picks comparison probe ·)).length_eq
  rw [List.filter_filter] at among
  simp only [Bool.and_self] at among
  exact (among.eq_of_length asMany.symm).symm

/-- Behind the end of a run everything is above it. -/
theorem lt_of_run_ends {first second member : α} {rest : List α}
    (sorted : (first :: second :: rest).Pairwise fun first second => (comparison first second).isLE)
    (differs : ¬(comparison first second).isEq) (behind : member ∈ second :: rest) :
    comparison first member = .lt := by
  obtain ⟨aboveFirst, restSorted⟩ := List.pairwise_cons.mp sorted
  have above : comparison first second = .lt := by
    have isLE := aboveFirst second List.mem_cons_self
    cases place : comparison first second <;> simp_all
  rcases List.mem_cons.mp behind with rfl | further
  · exact above
  · exact Std.TransCmp.lt_of_lt_of_isLE above ((List.pairwise_cons.mp restSorted).1 member further)

/-- What stays of an ascending list ascends strictly. -/
theorem pairwise_lastOfRuns {members : List α}
    (sorted : members.Pairwise fun first second => (comparison first second).isLE) :
    (lastOfRuns comparison members).Pairwise fun first second =>
      comparison first second = .lt := by
  fun_induction lastOfRuns comparison members with
  | case1 => exact .nil
  | case2 only => exact List.pairwise_singleton _ _
  | case3 first second rest same inductionHypothesis =>
    exact inductionHypothesis (List.pairwise_cons.mp sorted).2
  | case4 first second rest differs inductionHypothesis =>
    refine List.pairwise_cons.mpr
      ⟨fun member stays => ?_, inductionHypothesis (List.pairwise_cons.mp sorted).2⟩
    exact lt_of_run_ends sorted differs (mem_of_mem_lastOfRuns stays)

/-- Of the members of an ascending list that a probe picks, the last one stays.

Proof: by the recursion of `lastOfRuns`. A dropped member is picked exactly if the next one is, so
the last picked member is the same without it. Where a run ends, everything behind it is above, so a
picked member that stays is the only one left. -/
theorem find?_lastOfRuns (probe : α) {members : List α}
    (sorted : members.Pairwise fun first second => (comparison first second).isLE) :
    (lastOfRuns comparison members).find? (Picks comparison probe ·) =
      (members.filter (Picks comparison probe ·)).getLast? := by
  fun_induction lastOfRuns comparison members with
  | case1 => rfl
  | case2 only => by_cases picked : Picks comparison probe only <;> simp [picked]
  | case3 first second rest same inductionHypothesis =>
    rw [inductionHypothesis (List.pairwise_cons.mp sorted).2]
    have alike : Picks comparison probe first ↔ Picks comparison probe second := by
      rw [Picks, Picks, Std.TransCmp.congr_right (Ordering.isEq_iff_eq_eq.mp same)]
    by_cases picked : Picks comparison probe first
    · simp [picked, alike.mp picked]
    · simp [picked]
  | case4 first second rest differs inductionHypothesis =>
    by_cases picked : Picks comparison probe first
    · -- the run ends here, so nothing behind it is picked
      have noneBehind : (second :: rest).filter (Picks comparison probe ·) = [] := by
        refine List.filter_eq_nil_iff.mpr fun member behind alsoPicked => ?_
        have above := lt_of_run_ends sorted differs behind
        rw [← Std.TransCmp.congr_left picked, of_decide_eq_true alsoPicked] at above
        cases above
      rw [List.find?_cons_of_pos (by simp [picked]), List.filter_cons_of_pos (by simp [picked]),
        noneBehind]
      rfl
    · rw [List.find?_cons_of_neg (by simp [picked]), List.filter_cons_of_neg (by simp [picked])]
      exact inductionHypothesis (List.pairwise_cons.mp sorted).2

/-- Of the members of a batch that a probe picks, the last one that was given stays. -/
theorem find?_batch (probe : α) (given : List α) :
    (lastOfRuns comparison (arrange comparison given)).find? (Picks comparison probe ·) =
      (given.filter (Picks comparison probe ·)).getLast? := by
  rw [find?_lastOfRuns probe (pairwise_arrange given), filter_arrange]

/-- Everything that was given has an equal that stays. -/
theorem exists_mem_batch {given : List α} {member : α} (isGiven : member ∈ given) :
    ∃ kept ∈ lastOfRuns comparison (arrange comparison given), comparison member kept = .eq := by
  have picked : member ∈ given.filter (Picks comparison member ·) :=
    List.mem_filter.mpr ⟨isGiven, decide_eq_true Std.ReflCmp.compare_self⟩
  obtain ⟨kept, isLast⟩ : ∃ kept, (given.filter (Picks comparison member ·)).getLast? = some kept :=
    ⟨_, List.getLast?_eq_some_getLast (List.ne_nil_of_mem picked)⟩
  rw [← find?_batch] at isLast
  have same : Picks comparison member kept := by simpa using List.find?_some isLast
  exact ⟨kept, List.mem_of_find?_eq_some isLast, same⟩

end Runs

/-- A set collected from a batch is equal to the set of the same elements inserted one after
another. -/
theorem order_setOfBatch (elements : List Value) :
    order (set (elementsOfBatch elements)) (set (elementsOf elements)) = .eq := by
  refine order_set_eq.mpr (forall₂_of_covers (pairwise_lastOfRuns (pairwise_arrange elements))
    (elementsAscend_elementsOf elements) ?_ ?_)
  · intro element stays
    exact exists_mem_elementsOf (mem_of_mem_batch stays)
  · intro element isElement
    exact exists_mem_batch (mem_of_mem_elementsOf isElement)

section Lookups

variable {κ ν : Type} {comparison : κ → κ → Ordering} [Std.TransCmp comparison]

/-- Insertion decides what is found under a key that is equal to the inserted one, and under no
other key.

Proof: by induction on the pairs that are held, with the place of the key as cases. A key in front
and an equal key decide at once; beyond a smaller key that is picked, the inserted one cannot be
picked as well. -/
theorem find?_upsert (probe key : κ) (value : ν) (held : List (κ × ν)) :
    ((upsert comparison key value held).find? (Picks comparison probe ·.1)).map (·.2) =
      if Picks comparison probe key then some value
      else (held.find? (Picks comparison probe ·.1)).map (·.2) := by
  induction held with
  | nil => by_cases picked : Picks comparison probe key <;> simp [upsert, picked]
  | cons head rest inductionHypothesis =>
    cases place : comparison key head.1 with
    | lt => by_cases picked : Picks comparison probe key <;> simp [upsert, place, picked]
    | eq =>
      have alike : Picks comparison probe key ↔ Picks comparison probe head.1 := by
        rw [Picks, Picks, Std.TransCmp.congr_right place]
      by_cases picked : Picks comparison probe head.1 <;> simp [upsert, place, picked, alike]
    | gt =>
      by_cases picked : Picks comparison probe head.1
      · have notKey : ¬Picks comparison probe key := by
          intro alsoPicked
          rw [← Std.TransCmp.congr_left alsoPicked, picked] at place
          cases place
        simp [upsert, place, picked, notKey]
      · simpa [upsert, place, picked] using inductionHypothesis

/-- Under a key is found the last value that was inserted under an equal one, or else what was
there before. -/
theorem find?_upsertAll (probe : κ) (pairs held : List (κ × ν)) :
    ((upsertAll comparison held pairs).find? (Picks comparison probe ·.1)).map (·.2) =
      ((pairs.filter (Picks comparison probe ·.1)).getLast?.or
        (held.find? (Picks comparison probe ·.1))).map (·.2) := by
  induction pairs generalizing held with
  | nil => rfl
  | cons pair rest inductionHypothesis =>
    rw [upsertAll, List.foldl_cons, ← upsertAll, inductionHypothesis, Option.map_or, find?_upsert]
    by_cases picked : Picks comparison probe pair.1
    · rw [List.filter_cons_of_pos (by simp [picked]), List.getLast?_cons, if_pos picked]
      cases (rest.filter (Picks comparison probe ·.1)).getLast? <;> rfl
    · rw [List.filter_cons_of_neg (by simp [picked]), if_neg picked, Option.map_or]

/-- Where keys ascend, each pair is found under every key equal to its own. -/
theorem find?_of_ascending {pairs : List (κ × ν)} (ascending : KeysAscend comparison pairs)
    {probe : κ} {pair : κ × ν} (member : pair ∈ pairs) (picked : Picks comparison probe pair.1) :
    pairs.find? (Picks comparison probe ·.1) = some pair := by
  induction pairs with
  | nil => cases member
  | cons head rest inductionHypothesis =>
    obtain ⟨below, restAscends⟩ := List.pairwise_cons.mp ascending
    rcases List.mem_cons.mp member with rfl | behind
    · rw [List.find?_cons_of_pos (by simp [picked])]
    · have notHead : ¬Picks comparison probe head.1 := by
        intro alsoPicked
        have before := below pair behind
        rw [← Std.TransCmp.congr_left alsoPicked, picked] at before
        cases before
      rw [List.find?_cons_of_neg (by simp [notHead])]
      exact inductionHypothesis restAscends behind

end Lookups

/-- The keys of a list are covered by those of another one in which the same values are found. -/
theorem covers_of_lookups {pairs others : List (Value × Value)}
    (same : ∀ probe, (pairs.find? (Picks order probe ·.1)).map (·.2) =
      (others.find? (Picks order probe ·.1)).map (·.2)) :
    Covers (pairs.map (·.1)) (others.map (·.1)) := by
  intro key isKey
  obtain ⟨pair, member, rfl⟩ := List.mem_map.mp isKey
  have found : (pairs.find? (Picks order pair.1 ·.1)).isSome :=
    List.find?_isSome.mpr ⟨pair, member, decide_eq_true (order_self pair.1)⟩
  rw [← Option.isSome_map, same, Option.isSome_map] at found
  obtain ⟨other, among, picked⟩ := List.find?_isSome.mp found
  exact ⟨other.1, List.mem_map_of_mem among, of_decide_eq_true picked⟩

/-- Lists of ascending keys in which the same values are found are equal place by place.

Proof: the keys cover each other, so they are equal in pairs. A pair is what is found under its own
key, and what the other list has there is found under that key too. -/
theorem forall₂_of_lookups {pairs others : List (Value × Value)}
    (ascending : KeysAscend order pairs) (alsoAscending : KeysAscend order others)
    (same : ∀ probe, (pairs.find? (Picks order probe ·.1)).map (·.2) =
      (others.find? (Picks order probe ·.1)).map (·.2)) :
    List.Forall₂ (fun first second => order first.1 second.1 = .eq ∧ first.2 = second.2)
      pairs others := by
  have keys := forall₂_of_covers (List.pairwise_map.mpr ascending)
    (List.pairwise_map.mpr alsoAscending) (covers_of_lookups same)
    (covers_of_lookups fun probe => (same probe).symm)
  rw [List.forall₂_map_left_iff, List.forall₂_map_right_iff] at keys
  obtain ⟨asLong, each⟩ := List.forall₂_iff_zip.mp keys
  refine List.forall₂_iff_zip.mpr ⟨asLong, fun {first second} together => ?_⟩
  obtain ⟨isFirst, isSecond⟩ := List.of_mem_zip together
  have equal : order first.1 second.1 = .eq := each together
  have values := same first.1
  rw [find?_of_ascending ascending isFirst (order_self first.1),
    find?_of_ascending alsoAscending isSecond equal] at values
  exact ⟨equal, Option.some.inj values⟩

/-- The order of entries by their keys is one of keys. -/
instance : Std.TransCmp orderKeys where
  eq_swap := @fun first second => (Std.OrientedCmp.eq_swap : order first.1 second.1 = _)
  isLE_trans := @fun first _ third before behind =>
    (Std.TransCmp.isLE_trans before behind : (order first.1 third.1).isLE)

/-- A map collected from a batch is equal to the map of the same entries inserted one after another:
either way a key has the last value that was given for it. -/
theorem order_mapOfBatch (entries : List (Value × Value)) :
    order (map (entriesOfBatch entries)) (map (entriesOf entries)) = .eq := by
  have ascending : (entriesOfBatch entries).Pairwise fun first second =>
      orderKeys first second = .lt := pairwise_lastOfRuns (pairwise_arrange entries)
  have found (probe : Value) : ((entriesOfBatch entries).find? (Picks order probe ·.1)).map (·.2) =
      ((entriesOf entries).find? (Picks order probe ·.1)).map (·.2) := by
    -- as a probe of entries, a key is an entry with any value
    have stays : (entriesOfBatch entries).find? (Picks order probe ·.1) =
        (entries.filter (Picks order probe ·.1)).getLast? :=
      @find?_batch _ orderKeys _ (probe, probe) entries
    rw [stays, entriesOf_eq, find?_upsertAll, List.find?_nil, Option.or_none]
  have equal := forall₂_of_lookups ascending (keysAscend_entriesOf entries) found
  refine order_map_eq.mpr (equal.imp fun first second together => ?_)
  obtain ⟨keys, values⟩ := together
  exact ⟨keys, values ▸ order_self first.2⟩

end SchemaCodec.Value
