import Mathlib.Data.List.Nodup
import Mathlib.Data.Nat.Find
import Mathlib.Logic.Function.Iterate
import SchemaCodec.Document.Reach

/-!
# Nearest first

The nodes at a distance from a start are those that the nodes one step closer lead to, in order. A
search in breadth-first order leaves out nodes that it has listed before. It may: whatever is looked
for in its list is found at the least distance at which there is any of it, and there it is the
first. The bound of the search counts unseen nodes and never cuts it short (`searches_iff`).
-/

namespace SchemaCodec.BreadthFirst

variable {α β : Type} {next : α → List α}

/-- The nodes at a distance from some nodes, with repetitions and in order. -/
def levelAt (next : α → List α) (distance : Nat) (level : List α) : List α :=
  (fun nodes => nodes.flatMap next)^[distance] level

/-- What lies one step further lies one step further from the next level. -/
theorem levelAt_succ {distance : Nat} {level : List α} :
    levelAt next (distance + 1) level = levelAt next distance (level.flatMap next) :=
  Function.iterate_succ_apply _ _ _

/-- What lies one step further is what the nodes at a distance lead to. -/
theorem levelAt_succ' {distance : Nat} {level : List α} :
    levelAt next (distance + 1) level = (levelAt next distance level).flatMap next :=
  Function.iterate_succ_apply' _ _ _

/-- What is found in the next level is found first in what some node leads to. -/
theorem findSome?_flatMap {f : α → Option β} {level : List α} :
    (level.flatMap next).findSome? f = level.findSome? fun node => (next node).findSome? f := by
  induction level with
  | nil => rfl
  | cons node rest inductionHypothesis =>
    rw [List.flatMap_cons, List.findSome?_append, inductionHypothesis, List.findSome?_cons]
    cases (next node).findSome? f <;> rfl

variable [DecidableEq α]

/-- The nodes of a level that are unseen, each at its first turn. -/
def freshOf : List α → List α → List α
  | [], _ => []
  | node :: rest, unseen =>
    if node ∈ unseen then node :: freshOf rest (unseen.erase node) else freshOf rest unseen

/-- A node of a level is listed when it is unseen. -/
theorem mem_freshOf {level unseen : List α} {node : α} :
    node ∈ freshOf level unseen ↔ node ∈ level ∧ node ∈ unseen := by
  induction level generalizing unseen with
  | nil => simp [freshOf]
  | cons first rest inductionHypothesis =>
    by_cases same : node = first
    · subst same
      by_cases member : node ∈ unseen
      · simp [freshOf, member]
      · simp [freshOf, member, inductionHypothesis]
    · by_cases member : first ∈ unseen
      · simp [freshOf, member, inductionHypothesis, same, List.mem_erase_of_ne same]
      · simp [freshOf, member, inductionHypothesis, same]

/-- What only unseen nodes have is found in a level where it is found among its unseen nodes.

Proof: by induction on the level. An unseen node that has nothing may leave the unseen ones, for
then the premise holds of those that are left; a node that was seen has nothing by the premise. -/
theorem findSome?_freshOf {f : α → Option β} {level unseen : List α}
    (seen : ∀ node, node ∉ unseen → f node = none) :
    (freshOf level unseen).findSome? f = level.findSome? f := by
  induction level generalizing unseen with
  | nil => rfl
  | cons node rest inductionHypothesis =>
    unfold freshOf
    split
    · cases here : f node with
      | some result => simp [here]
      | none =>
        rw [List.findSome?_cons_of_isNone (by simp [here]),
          List.findSome?_cons_of_isNone (by simp [here])]
        refine inductionHypothesis fun other absent => ?_
        by_cases same : other = node
        · exact same ▸ here
        · exact seen other fun member => absent ((List.mem_erase_of_ne same).mpr member)
    · next member =>
      rw [List.findSome?_cons_of_isNone (by simp [seen node member])]
      exact inductionHypothesis seen

/-- A node that was seen is skipped. -/
theorem reachWithin_cons_of_seen {bound : Nat} {node : α} {queue unseen : List α}
    (seen : node ∉ unseen) :
    reachWithin next bound (node :: queue) unseen = reachWithin next bound queue unseen := by
  cases bound with
  | zero => rfl
  | succ bound => simp [reachWithin, seen]

/-- A node that is unseen is listed, and the nodes that it leads to wait at the end. -/
theorem reachWithin_cons_of_unseen {node : α} {queue unseen : List α} (member : node ∈ unseen) :
    reachWithin next unseen.length (node :: queue) unseen =
      node :: reachWithin next (unseen.erase node).length (queue ++ next node)
        (unseen.erase node) := by
  have shorter : unseen.length = (unseen.erase node).length + 1 := by
    have positive := List.length_pos_of_mem member
    rw [List.length_erase_of_mem member]
    omega
  rw [shorter]
  simp [reachWithin, member]

/-- A search lists no more than the unseen nodes, so it ends by itself where it may list as many.
The induction is on the bound and, for each bound, on the queue. -/
theorem reachWithin_of_length_le {bound : Nat} {queue unseen : List α}
    (enough : unseen.length ≤ bound) :
    reachWithin next bound queue unseen = reachWithin next unseen.length queue unseen := by
  induction bound generalizing queue unseen with
  | zero => rw [Nat.le_zero.mp enough]
  | succ bound boundHypothesis =>
    induction queue with
    | nil => cases unseen <;> simp [reachWithin]
    | cons node rest queueHypothesis =>
      by_cases member : node ∈ unseen
      · have shorter : (unseen.erase node).length ≤ bound := by
          rw [List.length_erase_of_mem member]
          omega
        rw [reachWithin_cons_of_unseen member, ← boundHypothesis shorter]
        simp [reachWithin, member]
      · rw [reachWithin_cons_of_seen member, reachWithin_cons_of_seen member, queueHypothesis]

/-- A search that is over, with the nodes that it lists: its queue was worked off node by node, and
no bound has a part in it. -/
inductive Searches (next : α → List α) : List α → List α → List α → Prop
  /-- Nothing waits any more. -/
  | done {unseen : List α} : Searches next [] unseen []
  /-- A node that was seen is skipped. -/
  | skip {node : α} {queue unseen listed : List α} (seen : node ∉ unseen)
      (onwards : Searches next queue unseen listed) : Searches next (node :: queue) unseen listed
  /-- An unseen node is listed, and the nodes that it leads to wait at the end. -/
  | visit {node : α} {queue unseen listed : List α} (member : node ∈ unseen)
      (onwards : Searches next (queue ++ next node) (unseen.erase node) listed) :
      Searches next (node :: queue) unseen (node :: listed)

/-- A search that may list as many nodes as are unseen works off its queue, and lists what any
search without a bound lists. So the end of the list is the end of the search, and never that of the
bound.

Proof: a search without a bound goes through the steps of the bounded one, so by induction on it
both list the same. That there is such a search is by induction on the number of unseen nodes, which
falls with each node that is listed, and for each number on the queue. -/
theorem searches_iff {bound : Nat} {queue unseen listed : List α}
    (enough : unseen.length ≤ bound) :
    Searches next queue unseen listed ↔ reachWithin next bound queue unseen = listed := by
  rw [reachWithin_of_length_le enough]
  clear enough
  constructor
  · intro searches
    induction searches with
    | @done unseen => cases unseen <;> rfl
    | skip seen _ inductionHypothesis => rw [reachWithin_cons_of_seen seen, inductionHypothesis]
    | visit member _ inductionHypothesis =>
      rw [reachWithin_cons_of_unseen member, inductionHypothesis]
  · rintro rfl
    generalize counted : unseen.length = count
    induction count generalizing queue unseen with
    | zero =>
      obtain rfl := List.eq_nil_of_length_eq_zero counted
      induction queue with
      | nil => exact .done
      | cons node rest queueHypothesis => exact .skip (by simp) queueHypothesis
    | succ count countHypothesis =>
      induction queue with
      | nil => exact .done
      | cons node rest queueHypothesis =>
        rw [← counted] at queueHypothesis ⊢
        by_cases member : node ∈ unseen
        · have fewer : (unseen.erase node).length = count := by
            rw [List.length_erase_of_mem member, counted, Nat.add_sub_cancel]
          rw [reachWithin_cons_of_unseen member, fewer]
          exact .visit member (countHypothesis fewer)
        · rw [reachWithin_cons_of_seen member]
          exact .skip member queueHypothesis

/-- The search among some nodes works off its queue. -/
theorem searches_reach (nodes : List α) (next : α → List α) (start : α) :
    Searches next (next start) (nodes.filter (· ≠ start)) (reach nodes next start) :=
  (searches_iff (Nat.le_refl _)).mpr rfl

/-- The unseen nodes of a level are listed before all nodes that they lead to. -/
theorem reachWithin_append {level tail unseen : List α} :
    reachWithin next unseen.length (level ++ tail) unseen =
      freshOf level unseen ++ reachWithin next (unseen.diff level).length
        (tail ++ (freshOf level unseen).flatMap next) (unseen.diff level) := by
  induction level generalizing tail unseen with
  | nil => simp [freshOf]
  | cons node rest inductionHypothesis =>
    rw [List.diff_cons, List.cons_append]
    by_cases member : node ∈ unseen
    · have listed : freshOf (node :: rest) unseen = node :: freshOf rest (unseen.erase node) := by
        simp [freshOf, member]
      rw [reachWithin_cons_of_unseen member, List.append_assoc, inductionHypothesis, listed]
      simp
    · have skipped : freshOf (node :: rest) unseen = freshOf rest unseen := by
        simp [freshOf, member]
      rw [reachWithin_cons_of_seen member, inductionHypothesis, skipped,
        List.erase_of_not_mem member]

/-- The unseen nodes of the queue are listed before all nodes that they lead to. -/
theorem reachWithin_queue (next : α → List α) (queue unseen : List α) :
    reachWithin next unseen.length queue unseen =
      freshOf queue unseen ++ reachWithin next (unseen.diff queue).length
        ((freshOf queue unseen).flatMap next) (unseen.diff queue) := by
  have split : reachWithin next unseen.length (queue ++ []) unseen =
      freshOf queue unseen ++ reachWithin next (unseen.diff queue).length
        ([] ++ (freshOf queue unseen).flatMap next) (unseen.diff queue) := reachWithin_append
  rwa [List.append_nil, List.nil_append] at split

/-- What holds of the queue and spreads along the edges holds of every node that is listed.

Proof: by induction on the bound. The node that is listed stood in the queue, so it has the
property, and the nodes that it leads to have it as well when they join the queue. -/
theorem forall_mem_reachWithin (spreads : α → Prop)
    (edge : ∀ {node}, spreads node → ∀ other ∈ next node, spreads other) {bound : Nat}
    {queue unseen : List α} (start : ∀ node ∈ queue, spreads node) :
    ∀ node ∈ reachWithin next bound queue unseen, spreads node := by
  induction bound generalizing queue unseen with
  | zero => simp [reachWithin]
  | succ bound inductionHypothesis =>
    unfold reachWithin
    split
    · simp
    · next node rest left =>
      have kept : ∀ other ∈ node :: rest, spreads other := fun other member =>
        start other ((List.dropWhile_sublist _).subset (left ▸ member))
      have first := kept node List.mem_cons_self
      refine List.forall_mem_cons.mpr ⟨first, inductionHypothesis fun other member => ?_⟩
      rcases List.mem_append.mp member with waits | behind
      · exact kept other (List.mem_cons_of_mem _ waits)
      · exact edge first other behind

/-- What is found at a distance, and not closer, is found by the search. The level is told with all
repetitions and the queue without some of them; what only unseen nodes have is found in both alike.
The induction is on the distance: seen nodes lead to nodes that are seen or wait in the queue, so
both forms of the next level agree again. -/
theorem findSome?_reachWithin {f : α → Option β} {result : β} {distance : Nat}
    {level queue unseen : List α} (distinct : unseen.Nodup)
    (seen : ∀ node, node ∉ unseen → f node = none)
    (agree : ∀ g : α → Option β, (∀ node, node ∉ unseen → g node = none) →
      level.findSome? g = queue.findSome? g)
    (closed : ∀ node, node ∉ unseen → ∀ other ∈ next node, other ∈ unseen → other ∈ queue)
    (found : (levelAt next distance level).findSome? f = some result)
    (nearest : ∀ closer < distance, (levelAt next closer level).findSome? f = none) :
    (reachWithin next unseen.length queue unseen).findSome? f = some result := by
  induction distance generalizing level queue unseen with
  | zero =>
    have here : level.findSome? f = some result := found
    rw [reachWithin_queue, List.findSome?_append, findSome?_freshOf seen, ← agree f seen, here]
    rfl
  | succ distance inductionHypothesis =>
    have absent : queue.findSome? f = none := by
      rw [← agree f seen]
      exact nearest 0 distance.succ_pos
    rw [reachWithin_queue, List.findSome?_append, findSome?_freshOf seen, absent, Option.none_or]
    have seenBehind {node : α} (member : node ∉ unseen.diff queue) :
        node ∉ unseen ∨ node ∈ queue ∧ node ∈ unseen := by
      by_cases known : node ∈ unseen
      · by_cases waits : node ∈ queue
        · exact .inr ⟨waits, known⟩
        · exact absurd ((distinct.mem_sdiff_iff).mpr ⟨known, waits⟩) member
      · exact .inl known
    have found : (levelAt next distance (level.flatMap next)).findSome? f = some result :=
      levelAt_succ ▸ found
    refine inductionHypothesis distinct.diff ?_ ?_ ?_ found ?_
    · intro node member
      rcases seenBehind member with before | ⟨waits, -⟩
      · exact seen node before
      · exact List.findSome?_eq_none_iff.mp absent node waits
    · intro g vanishes
      have leads : ∀ node, node ∉ unseen → (next node).findSome? g = none := by
        intro node member
        refine List.findSome?_eq_none_iff.mpr fun other isNext => vanishes other fun behind => ?_
        obtain ⟨known, waits⟩ := distinct.mem_sdiff_iff.mp behind
        exact waits (closed node member other isNext known)
      rw [findSome?_flatMap, findSome?_flatMap, findSome?_freshOf leads]
      exact agree _ leads
    · intro node member other isNext behind
      obtain ⟨known, waits⟩ := distinct.mem_sdiff_iff.mp behind
      rcases seenBehind member with before | isFresh
      · exact absurd (closed node before other isNext known) waits
      · exact List.mem_flatMap.mpr ⟨node, mem_freshOf.mpr isFresh, isNext⟩
    · intro closer isCloser
      rw [← levelAt_succ]
      exact nearest (closer + 1) (by omega)

section Reach

variable {nodes : List α} {start : α}

/-- What nodes other than the start have is found by the search where there is any of it at a
distance, and none closer.

Proof: the start itself has none of it, so the search from the nodes behind the start finds what
lies one step less far from them. Nodes that are not searched are the start and those that are not
known, neither of which matters. -/
theorem findSome?_reach_of_nearest {f : α → Option β} {result : β} {distance : Nat}
    (distinct : nodes.Nodup) (leaf : ∀ node, node ∉ nodes → next node = [])
    (elsewhere : ∀ node, node ∉ nodes → f node = none) (started : f start = none)
    (found : (levelAt next distance [start]).findSome? f = some result)
    (nearest : ∀ closer < distance, (levelAt next closer [start]).findSome? f = none) :
    (reach nodes next start).findSome? f = some result := by
  have unseen {node : α} (member : node ∉ nodes.filter (· ≠ start)) :
      node = start ∨ node ∉ nodes := by
    by_cases same : node = start
    · exact .inl same
    · exact .inr fun known => member (List.mem_filter.mpr ⟨known, decide_eq_true same⟩)
  cases distance with
  | zero => simp [levelAt, started] at found
  | succ distance =>
    have first : [start].flatMap next = next start := by simp
    rw [levelAt_succ, first] at found
    refine findSome?_reachWithin (distinct.filter _) ?_ (fun _ _ => rfl) ?_ found
      fun closer isCloser => ?_
    · intro node member
      rcases unseen member with rfl | absent
      · exact started
      · exact elsewhere node absent
    · intro node member other isNext known
      rcases unseen member with rfl | absent
      · exact isNext
      · simp [leaf node absent] at isNext
    · rw [← first, ← levelAt_succ]
      exact nearest (closer + 1) (by omega)

/-- Every node that the search lists lies at some distance from the start. -/
theorem exists_levelAt_of_mem_reach {node : α} (listed : node ∈ reach nodes next start) :
    ∃ distance, node ∈ levelAt next distance [start] := by
  refine forall_mem_reachWithin (fun node => ∃ distance, node ∈ levelAt next distance [start])
    ?_ ?_ node listed
  · rintro node ⟨distance, member⟩ other isNext
    exact ⟨distance + 1, levelAt_succ' ▸ List.mem_flatMap.mpr ⟨node, member, isNext⟩⟩
  · exact fun other isNext => ⟨1, by simpa [levelAt] using isNext⟩

/-- What nodes other than the start have is found by the search exactly where the least distance at
which there is any of it has it first.

Proof: what is found at a nearest distance is found by the search. Conversely, the node at which the
search stops lies in some level, so there is a nearest level that has anything, and what is found
there is what the search finds. -/
theorem findSome?_reach {f : α → Option β} {result : β} (distinct : nodes.Nodup)
    (leaf : ∀ node, node ∉ nodes → next node = [])
    (elsewhere : ∀ node, node ∉ nodes → f node = none) (started : f start = none) :
    (reach nodes next start).findSome? f = some result ↔
      ∃ distance, (levelAt next distance [start]).findSome? f = some result ∧
        ∀ closer < distance, (levelAt next closer [start]).findSome? f = none := by
  refine ⟨fun found => ?_, fun ⟨distance, found, nearest⟩ =>
    findSome?_reach_of_nearest distinct leaf elsewhere started found nearest⟩
  -- The node at which the search stops lies in some level, so there is a nearest such level.
  obtain ⟨node, listed, here⟩ := List.exists_of_findSome?_eq_some found
  have somewhere : ∃ distance, (levelAt next distance [start]).findSome? f ≠ none := by
    obtain ⟨distance, member⟩ := exists_levelAt_of_mem_reach listed
    refine ⟨distance, fun absent => ?_⟩
    simp [List.findSome?_eq_none_iff.mp absent node member] at here
  classical
  have nearest : ∀ closer < Nat.find somewhere, (levelAt next closer [start]).findSome? f = none :=
    fun closer isCloser => not_not.mp (Nat.find_min somewhere isCloser)
  obtain ⟨other, isOther⟩ := Option.ne_none_iff_exists'.mp (Nat.find_spec somewhere)
  have search := findSome?_reach_of_nearest distinct leaf elsewhere started isOther nearest
  obtain rfl := Option.some.inj (found.symm.trans search)
  exact ⟨_, isOther, nearest⟩

/-- The search lists the nodes other than the start that lie at some distance from it.

Proof: to look for the node itself is to look for a property that it alone has. It is found by the
search exactly if it is found at some distance first, and the least distance at which it lies is
such a one. -/
theorem mem_reach {node : α} (distinct : nodes.Nodup)
    (leaf : ∀ node, node ∉ nodes → next node = []) (known : node ∈ nodes) (away : node ≠ start) :
    node ∈ reach nodes next start ↔ ∃ distance, node ∈ levelAt next distance [start] := by
  let wanted (other : α) : Option Unit := if other = node then some () else none
  have isWanted (level : List α) : node ∈ level ↔ level.findSome? wanted = some () := by
    induction level with
    | nil => simp
    | cons first rest inductionHypothesis =>
      by_cases same : first = node
      · simp [wanted, same]
      · simp [wanted, same, Ne.symm same, inductionHypothesis]
  have elsewhere : ∀ other, other ∉ nodes → wanted other = none := by
    intro other absent
    exact if_neg fun same : other = node => absent (same ▸ known)
  rw [isWanted, findSome?_reach distinct leaf elsewhere (if_neg away.symm)]
  simp only [isWanted]
  refine ⟨fun ⟨distance, here, _⟩ => ⟨distance, here⟩, fun somewhere => ?_⟩
  classical
  refine ⟨Nat.find somewhere, Nat.find_spec somewhere, fun closer isCloser => ?_⟩
  have missing := Nat.find_min somewhere isCloser
  exact Option.eq_none_iff_forall_ne_some.mpr fun _ => missing

end Reach

end SchemaCodec.BreadthFirst
