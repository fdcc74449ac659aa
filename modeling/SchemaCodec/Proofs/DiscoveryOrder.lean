import Mathlib.Data.List.Range
import Mathlib.Logic.Relation
import SchemaCodec.Proofs.BreadthFirst

/-!
# The order of discovery

A search in breadth-first order follows each node once. Following all of them level by level, with
all repetitions, meets the same nodes for the first time in the same order. So what the search lists
is the concatenation of the levels without what was seen before: each node that is reached, once,
and none behind a node that is farther away.
-/

namespace SchemaCodec.BreadthFirst

variable {α : Type} {next : α → List α}

/-- The nodes up to a distance from some nodes, level by level and with repetitions. -/
def levelsTo (next : α → List α) (depth : Nat) (level : List α) : List α :=
  (List.range (depth + 1)).flatMap fun distance => levelAt next distance level

/-- The levels are the first one and those of what it leads to. -/
theorem levelsTo_succ {depth : Nat} {level : List α} :
    levelsTo next (depth + 1) level = level ++ levelsTo next depth (level.flatMap next) := by
  rw [levelsTo, List.range_succ_eq_map, List.flatMap_cons, List.flatMap_map]
  simp only [Nat.succ_eq_add_one, levelAt_succ]
  rfl

/-- The levels are all but the last one, and the last one. -/
theorem levelsTo_succ' {depth : Nat} {level : List α} :
    levelsTo next (depth + 1) level =
      levelsTo next depth level ++ levelAt next (depth + 1) level := by
  rw [levelsTo, List.range_succ, List.flatMap_append, List.flatMap_singleton]
  rfl

/-- What is on the levels up to a distance is on one of them. -/
theorem mem_levelsTo {depth : Nat} {level : List α} {node : α} :
    node ∈ levelsTo next depth level ↔
      ∃ distance ≤ depth, node ∈ levelAt next distance level := by
  simp only [levelsTo, List.mem_flatMap, List.mem_range, Nat.lt_succ_iff]

/-- What holds of some nodes and spreads along the edges holds of every node at a distance. -/
theorem forall_mem_levelAt (spreads : α → Prop)
    (edge : ∀ {node}, spreads node → ∀ other ∈ next node, spreads other) {distance : Nat}
    {level : List α} (start : ∀ node ∈ level, spreads node) :
    ∀ node ∈ levelAt next distance level, spreads node := by
  induction distance with
  | zero => exact start
  | succ distance inductionHypothesis =>
    rw [levelAt_succ']
    intro node member
    obtain ⟨before, isBefore, isNext⟩ := List.mem_flatMap.mp member
    exact edge (inductionHypothesis before isBefore) node isNext

/-- The levels do not depend on where nodes lead that are not met. -/
theorem levelAt_congr {other : α → List α} (spreads : α → Prop)
    (edge : ∀ {node}, spreads node → ∀ target ∈ next node, spreads target)
    (agree : ∀ node, spreads node → next node = other node) {distance : Nat} {level : List α}
    (start : ∀ node ∈ level, spreads node) :
    levelAt next distance level = levelAt other distance level := by
  induction distance with
  | zero => rfl
  | succ distance inductionHypothesis =>
    rw [levelAt_succ', levelAt_succ', ← inductionHypothesis]
    exact List.flatMap_congr fun node member =>
      agree node (forall_mem_levelAt spreads edge start node member)

/-- A node lies at some distance exactly where the edges lead to it. -/
theorem exists_levelAt_iff {start node : α} :
    (∃ distance, node ∈ levelAt next distance [start]) ↔
      Relation.ReflTransGen (fun first second => second ∈ next first) start node := by
  constructor
  · rintro ⟨distance, member⟩
    refine forall_mem_levelAt
      (Relation.ReflTransGen (fun first second => second ∈ next first) start) ?_ ?_ node member
    · exact fun leads other isNext => leads.tail isNext
    · intro other isStart
      rw [List.mem_singleton.mp isStart]
  · intro leads
    induction leads with
    | refl => exact ⟨0, List.mem_singleton_self start⟩
    | tail _ isNext inductionHypothesis =>
      obtain ⟨distance, member⟩ := inductionHypothesis
      exact ⟨distance + 1, levelAt_succ' ▸ List.mem_flatMap.mpr ⟨_, member, isNext⟩⟩

variable [DecidableEq α]

/-- Nodes that were seen and wait in front are skipped. -/
theorem reachWithin_append_of_seen {bound : Nat} {front queue unseen : List α}
    (seen : ∀ node ∈ front, node ∉ unseen) :
    reachWithin next bound (front ++ queue) unseen = reachWithin next bound queue unseen := by
  induction front with
  | nil => rfl
  | cons node rest inductionHypothesis =>
    obtain ⟨here, others⟩ := List.forall_mem_cons.mp seen
    rw [List.cons_append, reachWithin_cons_of_seen here, inductionHypothesis others]

section Fresh

variable {level unseen : List α}

/-- What is fresh in one level and another behind it. -/
theorem freshOf_append {behind : List α} :
    freshOf (level ++ behind) unseen =
      freshOf level unseen ++ freshOf behind (unseen.diff level) := by
  induction level generalizing unseen with
  | nil => rfl
  | cons node rest inductionHypothesis =>
    rw [List.cons_append, List.diff_cons]
    by_cases member : node ∈ unseen
    · simp only [freshOf, if_pos member, inductionHypothesis, List.cons_append]
    · simp only [freshOf, if_neg member, inductionHypothesis, List.erase_of_not_mem member]

/-- Nothing is fresh where all was seen. -/
theorem freshOf_eq_nil (seen : ∀ node ∈ level, node ∉ unseen) : freshOf level unseen = [] := by
  refine List.eq_nil_iff_forall_not_mem.mpr fun node isFresh => ?_
  obtain ⟨member, known⟩ := mem_freshOf.mp isFresh
  exact seen node member known

/-- What is seen for the first time is seen once. -/
theorem nodup_freshOf (distinct : unseen.Nodup) : (freshOf level unseen).Nodup := by
  induction level generalizing unseen with
  | nil => exact List.nodup_nil
  | cons node rest inductionHypothesis =>
    by_cases member : node ∈ unseen
    · rw [freshOf, if_pos member]
      have gone : node ∉ freshOf rest (unseen.erase node) := fun isFresh =>
        distinct.not_mem_erase (mem_freshOf.mp isFresh).2
      exact List.nodup_cons.mpr ⟨gone, inductionHypothesis (distinct.erase node)⟩
    · rw [freshOf, if_neg member]
      exact inductionHypothesis distinct

/-- What is fresh in a level is each of its unseen nodes without the repetitions. -/
theorem freshOf_eq_eraseDups (distinct : unseen.Nodup) :
    freshOf level unseen = (level.filter (· ∈ unseen)).eraseDups := by
  induction level generalizing unseen with
  | nil => rfl
  | cons node rest inductionHypothesis =>
    by_cases member : node ∈ unseen
    · rw [freshOf, if_pos member, inductionHypothesis (distinct.erase node),
        List.filter_cons_of_pos (by simpa using member), List.eraseDups_cons, List.filter_filter]
      congr 2
      refine List.filter_congr fun other _ => ?_
      by_cases same : other = node <;> simp [distinct.mem_erase_iff, same]
    · rw [freshOf, if_neg member, inductionHypothesis distinct,
        List.filter_cons_of_neg (by simpa using member)]

/-- The nodes that are left unseen do not depend on the repetitions in a level. -/
theorem diff_congr_freshOf {queue : List α} (distinct : unseen.Nodup)
    (same : freshOf level unseen = freshOf queue unseen) :
    unseen.diff level = unseen.diff queue := by
  rw [distinct.sdiff_eq_filter, distinct.sdiff_eq_filter]
  refine List.filter_congr fun node member => ?_
  have alike : node ∈ level ↔ node ∈ queue := by
    have isFresh : node ∈ freshOf level unseen ↔ node ∈ freshOf queue unseen := by rw [same]
    simpa [mem_freshOf, member] using isFresh
  simp [alike]

/-- What a level leads to is fresh where its fresh nodes lead to it, as long as no other node leads
to what is unseen.

Proof: by induction on the level. A fresh node contributes what it leads to on both sides and takes
that from what is unseen further on; a node that was seen leads to nothing that is unseen, so it may
be left out. -/
theorem freshOf_flatMap {later : List α} (distinct : later.Nodup)
    (closed : ∀ node, node ∉ unseen → ∀ other ∈ next node, other ∉ later) :
    freshOf (level.flatMap next) later = freshOf ((freshOf level unseen).flatMap next) later := by
  induction level generalizing unseen later with
  | nil => rfl
  | cons node rest inductionHypothesis =>
    rw [List.flatMap_cons, freshOf_append]
    by_cases member : node ∈ unseen
    · rw [freshOf, if_pos member, List.flatMap_cons, freshOf_append]
      congr 1
      refine inductionHypothesis distinct.diff fun other gone target isNext known => ?_
      obtain ⟨isLater, notNext⟩ := distinct.mem_sdiff_iff.mp known
      by_cases same : other = node
      · exact notNext (same ▸ isNext)
      · have absent : other ∉ unseen := fun isUnseen =>
          gone ((List.mem_erase_of_ne same).mpr isUnseen)
        exact closed other absent target isNext isLater
    · have kept : later.diff (next node) = later := by
        rw [distinct.sdiff_eq_filter, List.filter_eq_self]
        exact fun other known => decide_eq_true fun isNext => closed node member other isNext known
      rw [freshOf, if_neg member, freshOf_eq_nil (closed node member), List.nil_append, kept]
      exact inductionHypothesis distinct closed

end Fresh

/-- The search lists what is fresh in the levels, in the order of the levels. The levels are told
with all repetitions and the queue without some of them. The induction is on the depth: what the
queue leads to is fresh in the next level and in the next queue alike, since nodes that were seen
lead to nodes that were seen or wait in the queue. -/
theorem reachWithin_eq_freshOf {depth : Nat} {level queue unseen : List α}
    (distinct : unseen.Nodup) (same : freshOf level unseen = freshOf queue unseen)
    (closed : ∀ node, node ∉ unseen → ∀ other ∈ next node, other ∈ unseen → other ∈ queue)
    (enough : unseen.length ≤ depth) :
    reachWithin next unseen.length queue unseen = freshOf (levelsTo next depth level) unseen := by
  induction depth generalizing level queue unseen with
  | zero =>
    obtain rfl := List.length_eq_zero_iff.mp (Nat.le_zero.mp enough)
    rw [freshOf_eq_nil fun _ _ => List.not_mem_nil]
    rfl
  | succ depth inductionHypothesis =>
    have left : unseen.diff level = unseen.diff queue := diff_congr_freshOf distinct same
    have seenBefore : ∀ node, node ∉ unseen → ∀ other ∈ next node, other ∉ unseen.diff queue := by
      intro node absent other isNext known
      obtain ⟨isUnseen, notWaiting⟩ := distinct.mem_sdiff_iff.mp known
      exact notWaiting (closed node absent other isNext isUnseen)
    rw [reachWithin_queue, levelsTo_succ, freshOf_append, same, left]
    congr 1
    by_cases nothing : freshOf queue unseen = []
    · -- Nothing new was met, and what was seen leads to nothing new either.
      have queued : ∀ node ∈ queue, node ∉ unseen := fun node waits known =>
        List.eq_nil_iff_forall_not_mem.mp nothing node (mem_freshOf.mpr ⟨waits, known⟩)
      have met : ∀ node ∈ level, node ∉ unseen := fun node member known =>
        List.eq_nil_iff_forall_not_mem.mp (same.trans nothing) node
          (mem_freshOf.mpr ⟨member, known⟩)
      have spreads : ∀ {node}, node ∉ unseen → ∀ other ∈ next node, other ∉ unseen :=
        fun seen other isNext known => queued other (closed _ seen other isNext known) known
      rw [nothing, freshOf_eq_nil]
      · cases (unseen.diff queue).length <;> rfl
      · intro node member known
        obtain ⟨distance, -, isThere⟩ := mem_levelsTo.mp member
        refine forall_mem_levelAt (· ∉ unseen) spreads ?_ node isThere
          (distinct.mem_sdiff_iff.mp known).1
        intro other isNext
        obtain ⟨before, isBefore, leads⟩ := List.mem_flatMap.mp isNext
        exact spreads (met before isBefore) other leads
    · have fewer : (unseen.diff queue).length ≤ depth := by
        obtain ⟨node, isFresh⟩ := List.exists_mem_of_ne_nil _ nothing
        obtain ⟨waits, known⟩ := mem_freshOf.mp isFresh
        have shorter : (unseen.diff queue).length < unseen.length := by
          rw [distinct.sdiff_eq_filter, List.length_filter_lt_length_iff_exists]
          exact ⟨node, known, by simpa using waits⟩
        omega
      have agrees : freshOf (level.flatMap next) (unseen.diff queue) =
          freshOf ((freshOf queue unseen).flatMap next) (unseen.diff queue) := by
        rw [freshOf_flatMap distinct.diff seenBefore, same]
      refine inductionHypothesis distinct.diff agrees ?_ fewer
      intro node gone other isNext known
      by_cases isUnseen : node ∈ unseen
      · have waits : node ∈ queue := by
          by_contra absent
          exact gone (distinct.mem_sdiff_iff.mpr ⟨isUnseen, absent⟩)
        exact List.mem_flatMap.mpr ⟨node, mem_freshOf.mpr ⟨waits, isUnseen⟩, isNext⟩
      · exact absurd known (seenBefore node isUnseen other isNext)

/-- What is fresh in the levels comes in the order of its distance: wherever a node lies, the nodes
in front of it lie as near or nearer.

Proof: by induction on the depth. A node that is fresh in the last level lies in no level in front
of it, so it is farther than all nodes that were listed before and as far as those that are listed
with it. -/
theorem pairwise_freshOf_levelsTo {depth : Nat} {level unseen : List α} (distinct : unseen.Nodup) :
    (freshOf (levelsTo next depth level) unseen).Pairwise fun nearer farther =>
      ∀ distance, farther ∈ levelAt next distance level →
        ∃ closer ≤ distance, nearer ∈ levelAt next closer level := by
  induction depth with
  | zero =>
    refine List.pairwise_of_forall_mem_list fun nearer isNearer farther _ distance _ => ?_
    obtain ⟨closer, isFirst, isThere⟩ := mem_levelsTo.mp (mem_freshOf.mp isNearer).1
    exact ⟨closer, isFirst.trans distance.zero_le, isThere⟩
  | succ depth inductionHypothesis =>
    -- A node that is fresh in the last level lies in no level in front of it.
    have far : ∀ node ∈ freshOf (levelAt next (depth + 1) level)
        (unseen.diff (levelsTo next depth level)),
        ∀ distance, node ∈ levelAt next distance level → depth < distance := by
      intro node isFresh distance isThere
      by_contra near
      refine (distinct.mem_sdiff_iff.mp (mem_freshOf.mp isFresh).2).2 ?_
      exact mem_levelsTo.mpr ⟨distance, Nat.le_of_not_lt near, isThere⟩
    rw [levelsTo_succ', freshOf_append]
    refine List.pairwise_append.mpr ⟨inductionHypothesis, ?_, ?_⟩
    · refine List.pairwise_of_forall_mem_list
        fun nearer isNearer farther isFarther distance there => ?_
      exact ⟨depth + 1, far farther isFarther distance there, (mem_freshOf.mp isNearer).1⟩
    · intro nearer isNearer farther isFarther distance there
      obtain ⟨closer, within, isThere⟩ := mem_levelsTo.mp (mem_freshOf.mp isNearer).1
      exact ⟨closer, within.trans (far farther isFarther distance there).le, isThere⟩

section Reach

variable {nodes : List α} {start : α}

/-- The search lists what is fresh in the levels behind the start. -/
theorem reach_eq_freshOf (distinct : nodes.Nodup) (leaf : ∀ node, node ∉ nodes → next node = []) :
    reach nodes next start =
      freshOf (levelsTo next nodes.length (next start)) (nodes.filter (· ≠ start)) := by
  refine reachWithin_eq_freshOf (distinct.filter _) rfl ?_ (List.length_filter_le _ _)
  intro node absent other isNext known
  by_cases same : node = start
  · exact same ▸ isNext
  · have unknown : node ∉ nodes := fun member =>
      absent (List.mem_filter.mpr ⟨member, decide_eq_true same⟩)
    rw [leaf node unknown] at isNext
    cases isNext

/-- Each node is listed once. -/
theorem nodup_reach (distinct : nodes.Nodup) (leaf : ∀ node, node ∉ nodes → next node = []) :
    (reach nodes next start).Nodup := by
  rw [reach_eq_freshOf distinct leaf]
  exact nodup_freshOf (distinct.filter _)

/-- The start is not listed, even where the edges lead back to it. -/
theorem ne_start_of_mem_reach (distinct : nodes.Nodup)
    (leaf : ∀ node, node ∉ nodes → next node = []) {node : α}
    (listed : node ∈ reach nodes next start) : node ≠ start := by
  rw [reach_eq_freshOf distinct leaf] at listed
  exact of_decide_eq_true (List.mem_filter.mp (mem_freshOf.mp listed).2).2

/-- No node is listed behind one that is farther away from the start.

Proof: the list is what is fresh in the levels of the nodes that the start leads to, and these come
in the order of their distance. The level at a distance from the start is the level one closer to
those nodes. -/
theorem pairwise_reach (start : α) (distinct : nodes.Nodup)
    (leaf : ∀ node, node ∉ nodes → next node = []) :
    (reach nodes next start).Pairwise fun nearer farther =>
      ∀ distance, farther ∈ levelAt next distance [start] →
        ∃ closer ≤ distance, nearer ∈ levelAt next closer [start] := by
  have onwards : ∀ distance,
      levelAt next (distance + 1) [start] = levelAt next distance (next start) := by
    intro distance
    rw [levelAt_succ, List.flatMap_singleton]
  have ordered : (freshOf (levelsTo next nodes.length (next start))
      (nodes.filter (· ≠ start))).Pairwise _ :=
    pairwise_freshOf_levelsTo (distinct.filter (· ≠ start))
  rw [← reach_eq_freshOf distinct leaf] at ordered
  refine ordered.imp_of_mem fun {nearer farther} _ isFarther closest distance there => ?_
  cases distance with
  | zero =>
    exact absurd (List.mem_singleton.mp there) (ne_start_of_mem_reach distinct leaf isFarther)
  | succ distance =>
    obtain ⟨closer, within, isThere⟩ := closest distance (onwards distance ▸ there)
    exact ⟨closer + 1, Nat.succ_le_succ within, onwards closer ▸ isThere⟩

end Reach

end SchemaCodec.BreadthFirst
