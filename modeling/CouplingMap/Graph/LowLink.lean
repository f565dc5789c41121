import CouplingMap.Graph.Basic

/-!
# Cut vertices by depth-first search

A depth-first search numbers the vertices in the order in which it meets them and hangs each one
under the vertex from which it was met. The low of a vertex is the least number found along edges
of its subtree, its own tree edge left aside. A vertex that is no root cuts off the subtree of a
child whose low is not below its own number; a root cuts its component if it has two children.

The search keeps a stack with the path from the root to the vertex that it explores, each vertex
with the neighbours that it has not tried.

* `LowLink.descend`, `LowLink.glance`, `LowLink.backOut`: what is recorded when the search follows
  an edge to a new vertex, finds a vertex that was met before, or backs out of a vertex.
* `LowLink.search`: explores the vertices of a stack; `LowLink.run`: explores from every vertex.
* `cutVertices`: the vertices that are marked as cut vertices on the way.
-/

namespace CouplingMap.Graph

variable {n : Nat}

/-- The records of a depth-first search. -/
structure LowLink (n : Nat) where
  /-- The numbers of the vertices that have been met. -/
  number : Ledger (Option Nat) n
  low : Ledger Nat n
  parent : Ledger (Option (Fin n)) n
  /-- Whether a vertex is known to be a cut vertex. -/
  cut : Ledger Bool n
  /-- The number of children of the root of the present component. -/
  branches : Nat
  /-- The next number. -/
  next : Nat

namespace LowLink

/-- The records before the search. -/
def start (n : Nat) : LowLink n :=
  ⟨.replicate n none, .replicate n 0, .replicate n none, .replicate n false, 0, 0⟩

/-- Numbers a vertex and hangs it under its parent, if it has one. -/
def meet (s : LowLink n) (v : Fin n) (parent : Option (Fin n)) : LowLink n :=
  { s with
    number := s.number.set v (some s.next)
    low := s.low.set v s.next
    parent := s.parent.set v parent
    next := s.next + 1 }

/-- Lowers the low of a vertex to `k`, if `k` is less. -/
def lower (s : LowLink n) (v : Fin n) (k : Nat) : LowLink n :=
  { s with low := s.low.set v (min s.low[v] k) }

/-- Marks a cut vertex. -/
def mark (s : LowLink n) (v : Fin n) : LowLink n := { s with cut := s.cut.set v true }

/-- Follows an edge from `v` to a vertex that is new; the children of the root are counted. -/
def descend (s : LowLink n) (root v w : Fin n) : LowLink n :=
  let s := s.meet w (some v)
  if v = root then { s with branches := s.branches + 1 } else s

/-- Looks along an edge from `v` to a vertex with the number `k`, unless it is the parent of `v`. -/
def glance (s : LowLink n) (v w : Fin n) (k : Nat) : LowLink n :=
  if s.parent[v] = some w then s else s.lower v k

/-- Backs out of `v` into the vertex below it on the stack, which is no root and is marked if
nothing in the subtree of `v` leads above it. -/
def backOut (s : LowLink n) (root v : Fin n) : List (Fin n × List (Fin n)) → LowLink n
  | [] => s
  | (p, _) :: _ =>
    let s := s.lower p s.low[v]
    if p ≠ root ∧ (s.number[p].any fun k => k ≤ s.low[v]) = true then s.mark p else s

/-- Explores the vertices of a stack, the last one first. The first argument bounds the number of
steps. -/
def search (adj : Adjacency n) (root : Fin n) :
    Nat → List (Fin n × List (Fin n)) → LowLink n → LowLink n
  | 0, _, s => s
  | _ + 1, [], s => s
  | bound + 1, (v, []) :: below, s => search adj root bound below (s.backOut root v below)
  | bound + 1, (v, w :: untried) :: below, s =>
    match s.number[w] with
    | none => search adj root bound ((w, adj w) :: (v, untried) :: below) (s.descend root v w)
    | some k => search adj root bound ((v, untried) :: below) (s.glance v w k)

/-- The number of steps that suffice: a vertex is entered once, tries its neighbours and is backed
out of. -/
def effort (adj : Adjacency n) : Nat :=
  (List.finRange n).foldl (fun k v => k + ((adj v).length + 1)) 0

/-- Marks a root that has more than one child. -/
def judge (s : LowLink n) (root : Fin n) : LowLink n := if 1 < s.branches then s.mark root else s

/-- Meets a root, which has no children yet. -/
def meetRoot (s : LowLink n) (v : Fin n) : LowLink n := { s with branches := 0 }.meet v none

/-- Searches the component of a vertex, unless this has been done. -/
def exploreRoot (adj : Adjacency n) (bound : Nat) (s : LowLink n) (v : Fin n) : LowLink n :=
  if s.number[v].isSome then s else (search adj v bound [(v, adj v)] (s.meetRoot v)).judge v

/-- Searches the whole graph. -/
def run (adj : Adjacency n) : LowLink n :=
  (List.finRange n).foldl (exploreRoot adj (effort adj)) (start n)

end LowLink

/-- The cut vertices of a graph, in ascending order. -/
def cutVertices (adj : Adjacency n) : List (Fin n) :=
  let s := LowLink.run adj
  (List.finRange n).filter fun v => s.cut[v]

end CouplingMap.Graph
