import CouplingMap.Graph.Search

/-!
# Connected components

* `labels`: every vertex is labelled with the first vertex of its component; a vertex may be taken
  out of the graph beforehand.
* `separates`: whether taking out a vertex separates members of a set that were connected.
-/

namespace CouplingMap.Graph

variable {n : Nat}

/-- The neighbours other than `removed`. -/
def without (adj : Adjacency n) (removed : Option (Fin n)) : Adjacency n := fun v =>
  (adj v).filter fun w => some w ≠ removed

/-- Labels the component of a vertex, unless this has been done or the vertex is taken out. -/
def labelFrom (adj : Adjacency n) (removed : Option (Fin n))
    (labels : Ledger (Option (Fin n)) n) (v : Fin n) : Ledger (Option (Fin n)) n :=
  if labels[v].isSome ∨ some v = removed then labels
  else
    let marks := search (without adj removed) v
    Ledger.ofFn fun w => if marks[w].isSome then some v else labels[w]

/-- The component labels of the graph without `removed`. -/
def labels (adj : Adjacency n) (removed : Option (Fin n)) : Ledger (Option (Fin n)) n :=
  (List.finRange n).foldl (labelFrom adj removed) (Ledger.replicate n none)

/-- Whether two members other than `v` have the same label in `before` and not without `v`. Each
member is compared with the first one of its component. -/
def separates (adj : Adjacency n) (before : Ledger (Option (Fin n)) n) (members : List (Fin n))
    (v : Fin n) : Bool :=
  let after := labels adj (some v)
  let others := members.filter fun u => u ≠ v
  others.any fun u =>
    match others.find? fun w => before[w] = before[u] with
    | some w => after[w] ≠ after[u]
    | none => false

/-- The members whose removal separates other members, in the order of the members. -/
def cutMembers (adj : Adjacency n) (members : List (Fin n)) : List (Fin n) :=
  let before := labels adj none
  members.filter (separates adj before members)

end CouplingMap.Graph
