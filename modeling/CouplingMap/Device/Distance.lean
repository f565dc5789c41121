import CouplingMap.Device.Query
import CouplingMap.Graph.Search

/-!
# Distances on a device

A distance is the least number of hops between two nodes along connections in any direction.

* `Device.distance`, `Device.shortestPath`: between two nodes.
* `Device.allDistances`, `Device.fingerprint`: from one node to all nodes, and to all others.
* `Device.diameter`: the greatest distance between two nodes.
-/

namespace CouplingMap.Device

open CouplingMap.Graph

/-- The hop counts from a node to every node, in node order. -/
def allDistances (d : Device) (n : Node) : Except DeviceError (List (Option Nat)) := do
  let i ← d.position n
  .ok (hopsFrom (lookup d.table) i).toList

/-- The hop counts from a position to every other position. -/
def fingerprintAt {n : Nat} (t : Ledger (List (Fin n)) n) (i : Fin n) : List (Option Nat) :=
  (hopsFrom (lookup t) i).toList.eraseIdx i

/-- The hop counts from a node to every other node, in node order. -/
def fingerprint (d : Device) (n : Node) : Except DeviceError (List (Option Nat)) := do
  let i ← d.position n
  .ok (fingerprintAt d.table i)

/-- The hop count between two nodes. -/
def distance (d : Device) (a b : Node) : Except DeviceError Nat := do
  let i ← d.position a
  let j ← d.position b
  if i = j then .ok 0
  else match (hopsFrom (lookup d.table) i)[j] with
    | some k => .ok k
    | none => .error (.unreachable a b)

/-- A shortest path between two nodes, both included. -/
def shortestPath (d : Device) (a b : Node) : Except DeviceError (List Node) := do
  let i ← d.position a
  let j ← d.position b
  match pathTo? (searchFor (lookup d.table) i j) j with
  | some path => .ok (path.map d.nodeAt)
  | none => .error (.unreachable a b)

/-- The path that is found, or none. -/
theorem shortestPath_eq (d : Device) (a b : Node) : d.shortestPath a b =
    d.position a >>= fun i => d.position b >>= fun j =>
      (pathTo? (searchFor (lookup d.table) i j) j).elim (.error (.unreachable a b))
        fun path => .ok (path.map d.nodeAt) := by
  unfold shortestPath
  refine bind_congr fun i => bind_congr fun j => ?_
  cases pathTo? (searchFor (lookup d.table) i j) j <;> rfl

/-- The greatest of `best` and the hop counts from `i` to the positions after it. -/
def farthestAfter (d : Device) (t : d.Table) (best : Nat)
    (i : Fin d.size) : Except DeviceError Nat :=
  let hops := hopsFrom (lookup t) i
  ((List.finRange d.size).drop (i + 1)).foldlM (fun best j =>
    match hops[j] with
    | some k => .ok (max best k)
    | none => .error (.unreachable (d.nodeAt i) (d.nodeAt j))) best

/-- The greatest distance between two nodes. -/
def diameter (d : Device) : Except DeviceError Nat :=
  if d.nodes = [] then .error .noNodes
  else
    let t := d.table
    (List.finRange d.size).foldlM (d.farthestAfter t) 0

end CouplingMap.Device
