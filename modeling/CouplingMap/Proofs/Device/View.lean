import CouplingMap.Device.Line
import CouplingMap.Device.Prune

/-!
# What queries see of a device

Searches work on positions. They see the number of nodes, the node at each position and the position
of each node, and the graph on the positions; seats and slots are out of their sight.

* `Device.View`, `Device.view`: what is seen. `view_eq` says that the nodes and connections in their
  order decide it.
* `View.shortestPath`, `View.lines` and so on: the queries, from what is seen. Those that the device
  answers by a search are its queries by definition.
* `Device.InStep`: related devices of which the same nodes are pruned.
-/

namespace CouplingMap.Device

open CouplingMap.Graph

variable {d e : Device}

/-- The positions of the nodes of a device. -/
structure Numbering where
  size : Nat
  nodeAt : Fin size → Node
  place? : Node → Option (Fin size)

/-- What queries see of a device. -/
structure View extends Numbering where
  graph : Graph size

/-- The positions of the nodes of the device. -/
def numbering (d : Device) : Numbering := ⟨d.size, d.nodeAt, d.place?⟩

/-- What queries see of the device. -/
def view (d : Device) : View := ⟨d.numbering, d.undirected⟩

/-! ## Nodes and connections decide the view -/

theorem Numbering.ext_val {v w : Numbering} (hsize : v.size = w.size)
    (hnode : ∀ k (hv : k < v.size) (hw : k < w.size), v.nodeAt ⟨k, hv⟩ = w.nodeAt ⟨k, hw⟩)
    (hplace : ∀ n, (v.place? n).map Fin.val = (w.place? n).map Fin.val) : v = w := by
  obtain ⟨size, nodeAt, place?⟩ := v
  obtain ⟨size', nodeAt', place?'⟩ := w
  obtain rfl : size = size' := hsize
  obtain rfl : nodeAt = nodeAt' := funext fun i => hnode i i.isLt i.isLt
  obtain rfl : place? = place?' :=
    funext fun n => Option.map_inj_right (fun _ _ h => Fin.ext h) |>.1 (hplace n)
  rfl

/-- Positions are the places in the list of nodes. -/
theorem map_place? (d : Device) (n : Node) :
    (d.place? n).map Fin.val = if n ∈ d.nodes then some (d.nodes.idxOf n) else none := by
  split
  · rename_i hn
    obtain ⟨i, rfl⟩ := exists_nodeAt hn
    rw [place?_eq_some.2 rfl, idxOf_nodeAt]
    rfl
  · rename_i hn
    rw [place?_eq_none.2 hn]
    rfl

theorem numbering_eq (hn : d.nodes = e.nodes) : d.numbering = e.numbering := by
  refine Numbering.ext_val ?_ (fun k hd he => ?_) fun n => ?_
  · show d.size = e.size
    rw [← length_nodes, ← length_nodes, hn]
  · have h := (d.getElem?_nodes ⟨k, hd⟩).symm.trans ((congrArg (·[k]?) hn).trans
      (e.getElem?_nodes ⟨k, he⟩))
    exact Option.some.inj h
  · show (d.place? n).map Fin.val = (e.place? n).map Fin.val
    rw [map_place?, map_place?, hn]

/-- The positions of the ends of a connection. -/
def Numbering.endPlaces? (v : Numbering) (c : Connection) : Option (Fin v.size × Fin v.size) :=
  (v.place? c.source).bind fun i => (v.place? c.target).map fun j => (i, j)

/-- The graph on the positions, its edges laid in the order of the connections. -/
def Numbering.graph (v : Numbering) (cs : List Connection) : Graph v.size :=
  (cs.filterMap v.endPlaces?).foldl (fun g p => g.join p.1 p.2) (Graph.empty v.size)

/-- The view with a numbering and connections. -/
def View.of (v : Numbering) (cs : List Connection) : View := ⟨v, v.graph cs⟩

theorem view_of (d : Device) : d.view = View.of d.numbering d.connections := by
  rw [view, undirected_eq]
  rfl

/-- Devices with the same nodes and connections, in the same order, look the same to queries. -/
theorem view_eq (hn : d.nodes = e.nodes) (hc : d.connections = e.connections) :
    d.view = e.view := by
  rw [view_of, view_of, numbering_eq hn, hc]

/-! ## Queries -/

namespace View

variable (v : View)

/-- The position of a node in the node order. -/
def position (n : Node) : Except DeviceError (Fin v.size) :=
  (v.place? n).elim (.error (.nodeNotFound n)) .ok

/-- The edges by the positions of their ends, in the order in which they were laid. -/
def edges : List (Nat × Nat) := v.graph.edges.map fun p => (p.1, p.2)

/-- The neighbours of every position. -/
def table : Ledger (List (Fin v.size)) v.size := v.graph.table

/-- The number of nodes that are linked to a node. -/
def degree (n : Node) : Except DeviceError Nat :=
  v.position n >>= fun i => .ok (v.graph.neighbours i).length

/-- The nodes whose degree is picked out of all degrees, in ascending order. -/
def extremes (pick : List Nat → Option Nat) : List Node :=
  match pick (v.table.toList.map List.length) with
  | none => []
  | some k =>
    Node.sorted (((List.finRange v.size).filter fun i => v.table[i].length = k).map v.nodeAt)

/-- For every two positions, whether the nodes are linked. -/
def matrix : List (List Bool) :=
  List.ofFn fun i : Fin v.size => List.ofFn fun j : Fin v.size => v.table[i].contains j

/-- The hop counts from a node to every node, in node order. -/
def allDistances (n : Node) : Except DeviceError (List (Option Nat)) :=
  v.position n >>= fun i => .ok (hopsFrom (lookup v.table) i).toList

/-- The hop counts from a node to every other node, in node order. -/
def fingerprint (n : Node) : Except DeviceError (List (Option Nat)) :=
  v.position n >>= fun i => .ok (fingerprintAt v.table i)

/-- The hop count between two nodes. -/
def distance (a b : Node) : Except DeviceError Nat :=
  v.position a >>= fun i => v.position b >>= fun j =>
    if i = j then .ok 0
    else match (hopsFrom (lookup v.table) i)[j] with
      | some k => .ok k
      | none => .error (.unreachable a b)

/-- A shortest path between two nodes. -/
def shortestPath (a b : Node) : Except DeviceError (List Node) :=
  v.position a >>= fun i => v.position b >>= fun j =>
    (pathTo? (searchFor (lookup v.table) i j) j).elim (.error (.unreachable a b))
      fun path => .ok (path.map v.nodeAt)

/-- The greatest of `best` and the hop counts from `i` to the positions after it. -/
def farthestAfter (best : Nat) (i : Fin v.size) : Except DeviceError Nat :=
  ((List.finRange v.size).drop (i + 1)).foldlM (fun best j =>
    match (hopsFrom (lookup v.table) i)[j] with
    | some k => .ok (max best k)
    | none => .error (.unreachable (v.nodeAt i) (v.nodeAt j))) best

/-- Disjoint lines of the requested lengths. -/
def lines (lengths : List Nat) : Except DeviceError (List (List Node)) :=
  let required := lengths.foldl (fun k length => k + length) 0
  if v.size < required then .error (.insufficientNodes required v.size)
  else
    .ok ((linesFrom (descending lengths) v.table (.replicate v.size false)).map
      (List.map v.nodeAt))

/-- The nodes whose removal separates other nodes, in ascending order. -/
def cutNodes : List Node := Node.sorted ((cutVertices (lookup v.table)).map v.nodeAt)

/-- The nodes of a part whose removal separates other nodes of the part, in ascending order. -/
def cutNodesOf (part : List Node) : Except DeviceError (List Node) :=
  part.mapM v.position >>= fun members =>
    .ok (Node.sorted ((cutMembers (lookup v.table) members).map v.nodeAt))

/-- Whether both nodes are on the device and the first one has the greater fingerprint. -/
def farther (candidate worst : Node) : Bool :=
  (v.place? candidate).elim false fun i => (v.place? worst).elim false fun j =>
    fingerprintKeys (fingerprintAt v.table j) < fingerprintKeys (fingerprintAt v.table i)

/-- The nodes that may be taken away next, with their fingerprints. -/
def candidates : List Candidate :=
  ((v.extremes List.min?).filter fun n => n ∉ v.cutNodes).filterMap fun n =>
    (v.place? n).map fun i => ⟨n, fingerprintAt v.table i⟩

end View

/-! ## The queries of the device -/

theorem position_view (d : Device) (n : Node) : d.position n = d.view.position n := by
  have helim : d.view.position n = (d.place? n).elim (.error (.nodeNotFound n)) .ok := rfl
  rw [helim, position]
  cases d.place? n <;> rfl

theorem edges_view (d : Device) :
    (d.undirected.edges.map fun p => ((p.1, p.2) : Nat × Nat)) = d.view.edges := rfl

theorem allDistances_view (d : Device) (n : Node) : d.allDistances n = d.view.allDistances n :=
  congrArg (· >>= _) (d.position_view n)

theorem fingerprint_view (d : Device) (n : Node) : d.fingerprint n = d.view.fingerprint n :=
  congrArg (· >>= _) (d.position_view n)

theorem distance_view (d : Device) (a b : Node) : d.distance a b = d.view.distance a b := by
  unfold distance
  rw [position_view, position_view]
  rfl

theorem shortestPath_view (d : Device) (a b : Node) :
    d.shortestPath a b = d.view.shortestPath a b := by
  rw [shortestPath_eq, position_view, position_view]
  rfl

theorem diameter_view (d : Device) : d.diameter =
    if d.nodes = [] then .error .noNodes
    else (List.finRange d.view.size).foldlM d.view.farthestAfter 0 := rfl

theorem lines_view (d : Device) : d.lines = d.view.lines := rfl

theorem articulationPoints_view (d : Device) : d.articulationPoints = d.view.cutNodes := rfl

theorem articulationPointsOf_view (d part : Device) :
    d.articulationPointsOf part = d.view.cutNodesOf part.nodes := by
  have hposition : d.position = d.view.position := funext d.position_view
  unfold articulationPointsOf
  rw [hposition]
  rfl

theorem farther_view (d : Device) (m n : Node) : d.farther d.table m n = d.view.farther m n := by
  have helim : d.view.farther m n = (d.place? m).elim false fun i =>
      (d.place? n).elim false fun j =>
        fingerprintKeys (fingerprintAt d.table j) < fingerprintKeys (fingerprintAt d.table i) := rfl
  rw [helim, farther]
  cases d.place? m with
  | none => rfl
  | some i => cases d.place? n <;> rfl

/-! ## Pruning in step -/

theorem removeNode_eq_error {n : Node} (hn : n ∉ d.nodes) :
    d.removeNode n = .error (.nodeNotFound n) :=
  congrArg (· >>= _) (seat_eq_error hn)

/-- Related devices have the same nodes and the same candidates, and are related without a node. -/
structure InStep (R : Device → Device → Prop) : Prop where
  nodes : ∀ {d e}, R d e → d.nodes = e.nodes
  candidates : ∀ {d e}, R d e → d.candidates d.table = e.candidates e.table
  removeNode : ∀ {d e d' e' n}, R d e → d.removeNode n = .ok d' → e.removeNode n = .ok e' → R d' e'

namespace InStep

variable {R : Device → Device → Prop} (hR : InStep R)

include hR

/-- The same nodes are pruned, in the same order. -/
theorem pruneFrom (tieBreak : Node → Node → Bool) (num : Nat) (h : R d e) :
    (pruneFrom tieBreak num d).1 = (pruneFrom tieBreak num e).1 ∧
      R (pruneFrom tieBreak num d).2 (pruneFrom tieBreak num e).2 := by
  induction num generalizing d e with
  | zero => exact ⟨rfl, h⟩
  | succ num ih =>
    unfold Device.pruneFrom
    rw [hR.candidates h]
    cases worstOf? tieBreak (e.candidates e.table) with
    | none => exact ⟨rfl, h⟩
    | some n =>
      dsimp only
      by_cases hn : n ∈ d.nodes
      · obtain ⟨d', hd, -⟩ := removeNode_eq_ok hn
        obtain ⟨e', he, -⟩ := removeNode_eq_ok (hR.nodes h ▸ hn)
        obtain ⟨htaken, hleft⟩ := ih (hR.removeNode h hd he)
        rw [hd, he]
        exact ⟨congrArg (n :: ·) htaken, hleft⟩
      · rw [removeNode_eq_error hn, removeNode_eq_error (hR.nodes h ▸ hn)]
        exact ⟨rfl, h⟩

/-- The same nodes are pruned if ties are broken alike. -/
theorem prune (num : Nat) (h : R d e) (hfarther : d.farther d.table = e.farther e.table) :
    (d.prune num).1 = (e.prune num).1 ∧ R (d.prune num).2 (e.prune num).2 := by
  have hrun := hR.pruneFrom (e.farther e.table) num h
  rw [Device.prune, hfarther, Device.prune]
  exact ⟨congrArg Node.sorted hrun.1, hrun.2⟩

end InStep

end CouplingMap.Device
