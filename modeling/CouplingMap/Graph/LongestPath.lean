import CouplingMap.Graph.Basic

/-!
# Longest simple paths

A depth-first search over the simple paths from each start in turn. It keeps a stack with the
vertices of the current path, each with the neighbours that it has not tried, and the longest
path so far. It ends as soon as a path has the wanted number of vertices.

* `PathSearch.step`: goes on to the next free neighbour, or backs out of the last vertex.
* `PathSearch.extend`: all steps for one start.
* `longestPath`: all starts, with some vertices blocked.
-/

namespace CouplingMap.Graph

variable {n : Nat}

/-- The state of a search for long paths. -/
structure PathSearch (n : Nat) where
  /-- The vertices that must not be entered: blocked ones and those of the current path. -/
  marked : Ledger Bool n
  /-- The current path, its last vertex first, each with the neighbours not tried. -/
  stack : List (Fin n × List (Fin n))
  /-- The longest path found. -/
  best : List (Fin n)

namespace PathSearch

/-- The current path from its start on. -/
def path (s : PathSearch n) : List (Fin n) := (s.stack.map Prod.fst).reverse

/-- Enters a vertex at the end of the current path. -/
def enter (adj : Adjacency n) (s : PathSearch n) (v : Fin n) : PathSearch n :=
  { s with marked := s.marked.set v true, stack := (v, adj v) :: s.stack }

/-- Leaves all vertices of the current path. -/
def leaveAll (s : PathSearch n) : PathSearch n :=
  { s with marked := s.path.foldl (fun m (v : Fin n) => m.set v false) s.marked, stack := [] }

/-- One step of the search for a path of `wanted` vertices. -/
def step (adj : Adjacency n) (wanted : Nat) (s : PathSearch n) : PathSearch n :=
  match s.stack with
  | [] => s
  | (v, untried) :: below =>
    if wanted ≤ below.length + 1 then { s.leaveAll with best := s.path }
    else
      match untried.dropWhile fun w => s.marked[w] with
      | w :: untried => { s with stack := (v, untried) :: below }.enter adj w
      | [] =>
        { marked := s.marked.set v false
          stack := below
          best := if s.best.length < below.length + 1 then s.path else s.best }

/-- Steps until the current path is empty, at most a given number of times. -/
def run (adj : Adjacency n) (wanted : Nat) : Nat → PathSearch n → PathSearch n
  | 0, s => s
  | bound + 1, s => if s.stack.isEmpty then s else run adj wanted bound (s.step adj wanted)

/-- The most steps that a vertex at the end of the path takes until the search backs out of it,
if no vertex has more than `width` neighbours and `free` vertices can be entered. -/
def effort (width : Nat) : Nat → Nat
  | 0 => 1
  | free + 1 => 1 + width * (effort width free + 1)

/-- The largest number of neighbours. -/
def width (adj : Adjacency n) : Nat :=
  (List.finRange n).foldl (fun k v => max k (adj v).length) 0

/-- Walks the simple paths from a start. -/
def extend (adj : Adjacency n) (wanted bound : Nat) (s : PathSearch n) (start : Fin n) :
    PathSearch n :=
  run adj wanted bound (s.enter adj start)

/-- Walks the simple paths from each start that is not blocked, until a path has the wanted
number of vertices. -/
def extendEach (adj : Adjacency n) (wanted bound : Nat) (blocked : Ledger Bool n) :
    List (Fin n) → PathSearch n → PathSearch n
  | [], s => s
  | v :: vs, s =>
    if blocked[v] then extendEach adj wanted bound blocked vs s
    else
      let s := extend adj wanted bound s v
      if wanted ≤ s.best.length then s else extendEach adj wanted bound blocked vs s

end PathSearch

/-- A longest simple path without blocked vertices, cut off at `limit` vertices. -/
def longestPath (adj : Adjacency n) (blocked : Ledger Bool n) (limit : Nat) : List (Fin n) :=
  let wanted := min limit (blocked.toList.count false)
  if wanted = 0 then []
  else
    let bound := PathSearch.effort (PathSearch.width adj) n
    (PathSearch.extendEach adj wanted bound blocked (List.finRange n) ⟨blocked, [], []⟩).best

end CouplingMap.Graph
