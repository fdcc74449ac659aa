/-!
# Nodes in breadth-first order

The nodes that are reached from a queue along the edges of a finite graph are listed nearest first,
each of them once. The unseen nodes bound the search: a node leaves them when it is listed.
-/

namespace SchemaCodec

/-- List the unseen nodes reached from a queue, at most that many of them. A node that waits in the
queue more than once is listed at its first turn. -/
def reachWithin [DecidableEq α] (next : α → List α) : Nat → List α → List α → List α
  | 0, _, _ => []
  | bound + 1, queue, unseen =>
    match queue.dropWhile (· ∉ unseen) with
    | [] => []
    | node :: rest => node :: reachWithin next bound (rest ++ next node) (unseen.erase node)

/-- The nodes other than the start that are reached from it by one edge or more, nearest first,
among some given nodes. -/
def reach [DecidableEq α] (nodes : List α) (next : α → List α) (start : α) : List α :=
  let unseen := nodes.filter (· ≠ start)
  reachWithin next unseen.length (next start) unseen

end SchemaCodec
