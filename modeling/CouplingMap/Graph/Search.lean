import CouplingMap.Graph.Basic

/-!
# Breadth-first search

A search goes out from a vertex in rounds. Each round visits the neighbours of the vertices that
the round before has reached; a vertex is marked when it is met for the first time.

* `search`: the marks of all reached vertices, with the number of hops and the vertex before.
* `searchFor`: the marks when the search comes to a goal, where it stops.
* `hopsFrom`: the hop counts alone.
* `pathTo?`: the path that led to a vertex.
-/

namespace CouplingMap.Graph

variable {n : Nat}

/-- What a search records of a vertex when it is reached. -/
structure Mark (n : Nat) where
  /-- The round in which the vertex was reached. -/
  hops : Nat
  /-- The neighbour from which it was reached, absent at the start. -/
  via : Option (Fin n)
deriving DecidableEq

/-- The marks of all vertices; a vertex not reached has none. -/
abbrev Marks (n : Nat) := Ledger (Option (Mark n)) n

/-- Visits `w` from `u`: if it has no mark it gets one and joins the next round. -/
def visit (hops : Nat) (u : Fin n) : Marks n × List (Fin n) → Fin n → Marks n × List (Fin n)
  | (marks, next), w =>
    if marks[w].isSome then (marks, next)
    else (marks.set w (some ⟨hops, some u⟩), w :: next)

/-- One round: visits the neighbours of the vertices in `front`, and answers the vertices that
are new, the latest first. -/
def round (adj : Adjacency n) (hops : Nat) (front : List (Fin n)) (marks : Marks n) :
    Marks n × List (Fin n) :=
  front.foldl (fun s u => (adj u).foldl (visit hops u) s) (marks, [])

/-- Runs at most the given number of rounds. -/
def rounds (adj : Adjacency n) : Nat → Nat → List (Fin n) → Marks n → Marks n
  | 0, _, _, marks => marks
  | _ + 1, _, [], marks => marks
  | bound + 1, hops, u :: front, marks =>
    let (marks, next) := round adj (hops + 1) (u :: front) marks
    rounds adj bound (hops + 1) next.reverse marks

/-- The marks before the first round: only the start is reached. -/
def startMarks (start : Fin n) : Marks n :=
  (Ledger.replicate n none).set start (some ⟨0, none⟩)

/-- Searches from a vertex: there are fewer rounds with new vertices than vertices. -/
def search (adj : Adjacency n) (start : Fin n) : Marks n :=
  rounds adj n 0 [start] (startMarks start)

/-- Runs at most the given number of rounds and stops on coming to `goal`: in the round that has it
in front, only the vertices before it have their neighbours visited. -/
def roundsTo (adj : Adjacency n) (goal : Fin n) : Nat → Nat → List (Fin n) → Marks n → Marks n
  | 0, _, _, marks => marks
  | _ + 1, _, [], marks => marks
  | bound + 1, hops, u :: front, marks =>
    if (u :: front).contains goal then
      (round adj (hops + 1) ((u :: front).takeWhile fun w => w ≠ goal) marks).1
    else
      let (marks, next) := round adj (hops + 1) (u :: front) marks
      roundsTo adj goal bound (hops + 1) next.reverse marks

/-- Searches from a vertex until it comes to `goal`. -/
def searchFor (adj : Adjacency n) (start goal : Fin n) : Marks n :=
  roundsTo adj goal n 0 [start] (startMarks start)

/-- The hop count of every vertex from `start`, `none` where the search does not get. -/
def hopsFrom (adj : Adjacency n) (start : Fin n) : Ledger (Option Nat) n :=
  (search adj start).map (Option.map Mark.hops)

/-- Follows the marks back for a number of hops and puts the vertices in front of `path`. -/
def trail (marks : Marks n) : Nat → Fin n → List (Fin n) → List (Fin n)
  | 0, v, path => v :: path
  | hops + 1, v, path =>
    match marks[v].bind Mark.via with
    | none => v :: path
    | some u => trail marks hops u (v :: path)

/-- The path along which the search reached a vertex. -/
def pathTo? (marks : Marks n) (v : Fin n) : Option (List (Fin n)) :=
  marks[v].map fun m => trail marks m.hops v []

end CouplingMap.Graph
