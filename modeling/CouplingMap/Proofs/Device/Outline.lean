import CouplingMap.Proofs.Device.Cut
import CouplingMap.Proofs.Device.Distance
import CouplingMap.Proofs.Device.Readout
import CouplingMap.Proofs.Topology.Identify

/-!
# What is found does not depend on directions, weights or the order of connections

Searches visit neighbours in the order in which the connections were listed. What they find can be
told from the linked nodes alone, so it is the same in any order.

* `Graph.hopsFrom_congr`, `Graph.cutVertices_congr`, `Graph.cutMembers_congr`: searches in graphs with
  the same edges.
* `Device.SameOutline`: devices with the same nodes, in order, and the same linked nodes.
* `Device.View.SameOutline`: views with the same positions and the same edges, with one lemma for
  each query.
* `Device.SameOutline.inStep`: the same nodes are pruned.
* `Device.SameOutline.sameFindings`: all findings agree.
-/

namespace CouplingMap

/-! ## Graphs with the same edges -/

namespace Graph

variable {n : Nat} {g g' : Graph n}

/-- The neighbours in a table are the adjacent vertices. -/
theorem mem_lookup {u w : Fin n} : w ∈ lookup g.table u ↔ g.shape.Adj u w := by
  rw [lookup_table, mem_neighbours, shape_adj]

theorem mem_lookup_of_eq (h : g.shape = g'.shape) {u w : Fin n} :
    w ∈ lookup g'.table u ↔ g.shape.Adj u w := by
  rw [h, mem_lookup]

theorem contains_neighbours_congr (h : g.shape = g'.shape) (v w : Fin n) :
    (g.neighbours v).contains w = (g'.neighbours v).contains w := by
  rw [Bool.eq_iff_iff, List.contains_iff_mem, List.contains_iff_mem, mem_neighbours,
    mem_neighbours, ← shape_adj, ← shape_adj, h]

/-- Each vertex has as many neighbours. -/
theorem length_neighbours_congr (h : g.shape = g'.shape) (v : Fin n) :
    (g.neighbours v).length = (g'.neighbours v).length := by
  have hmem (w : Fin n) : w ∈ g.neighbours v ↔ w ∈ g'.neighbours v := by
    rw [← List.contains_iff_mem, ← List.contains_iff_mem, contains_neighbours_congr h]
  exact ((List.perm_ext_iff_of_nodup (g.nodup_neighbours v) (g'.nodup_neighbours v)).2
    hmem).length_eq

theorem hopsFrom_congr (h : g.shape = g'.shape) (start : Fin n) :
    hopsFrom (lookup g.table) start = hopsFrom (lookup g'.table) start :=
  Ledger.ext fun _ => (apart_hopsFrom fun _ _ => mem_lookup).unique
    (apart_hopsFrom fun _ _ => mem_lookup_of_eq h)

theorem cutVertices_congr (h : g.shape = g'.shape) :
    cutVertices (lookup g.table) = cutVertices (lookup g'.table) := by
  refine List.filter_congr fun v hv => Bool.eq_iff_iff.2 ?_
  have hcut := mem_cutVertices (fun _ _ => mem_lookup (g := g)) (v := v)
  have hcut' := mem_cutVertices (fun _ _ => mem_lookup_of_eq h) (v := v)
  rw [cutVertices, List.mem_filter, and_iff_right hv] at hcut hcut'
  exact hcut.trans hcut'.symm

theorem cutMembers_congr (h : g.shape = g'.shape) (members : List (Fin n)) :
    cutMembers (lookup g.table) members = cutMembers (lookup g'.table) members := by
  refine List.filter_congr fun v _ => Bool.eq_iff_iff.2 ?_
  rw [separates_iff fun _ _ => mem_lookup, separates_iff fun _ _ => mem_lookup_of_eq h]

end Graph

namespace Device

open CouplingMap.Graph

variable {d e d' e' : Device} {n : Node}

/-! ## Outlines -/

/-- Devices with the same nodes in the same order and the same linked nodes. Directions and weights
may differ, and so may the order of connections. -/
structure SameOutline (d e : Device) : Prop where
  nodes : d.nodes = e.nodes
  linked : ∀ a b, d.linked a b = e.linked a b

/-- Views with the same positions of nodes and the same edges. -/
inductive View.SameOutline : View → View → Prop where
  | mk {num : Numbering} {g g' : Graph num.size} (h : g.shape = g'.shape) :
    SameOutline ⟨num, g⟩ ⟨num, g'⟩

/-- The edges between positions are the connections between their nodes, in some direction. -/
theorem joined_graph {cs : List Connection} {i j : Fin d.numbering.size} :
    (d.numbering.graph cs).Joined i j ↔ i ≠ j ∧ ∃ c ∈ cs,
      c.joins (d.numbering.nodeAt i) (d.numbering.nodeAt j) = true ∨
        c.joins (d.numbering.nodeAt j) (d.numbering.nodeAt i) = true := by
  have hends {c : Connection} {i j : Fin d.numbering.size} :
      d.numbering.endPlaces? c = some (i, j) ↔
        c.joins (d.numbering.nodeAt i) (d.numbering.nodeAt j) = true :=
    endPlaces?_eq_some
  refine joined_foldl_join.trans ?_
  simp only [List.mem_filterMap, hends, not_joined_empty, false_or]
  grind

namespace SameOutline

/-- The same nodes are linked. -/
theorem shape (h : SameOutline d e) : d.shape = e.shape := by
  ext a b
  show d.linked a b = true ↔ e.linked a b = true
  rw [h.linked]

theorem of_shape (hnodes : d.nodes = e.nodes) (hshape : d.shape = e.shape) : SameOutline d e :=
  ⟨hnodes, fun a b => Bool.eq_iff_iff.2 (iff_of_eq (congrArg (fun G => G.Adj a b) hshape))⟩

/-- Devices with the same outline are seen with the same outline. -/
theorem view (h : SameOutline d e) : View.SameOutline d.view e.view := by
  rw [view_of, view_of, ← numbering_eq h.nodes]
  refine .mk (SimpleGraph.ext ?_)
  funext i j
  refine propext ?_
  rw [Graph.shape_adj, Graph.shape_adj, joined_graph, joined_graph, ← linked_iff, ← linked_iff,
    h.linked]

end SameOutline

/-! ## Queries -/

namespace View.SameOutline

variable {v w : View}

theorem degree (h : v.SameOutline w) : v.degree = w.degree := by
  obtain ⟨h⟩ := h
  funext n
  simp only [View.degree, length_neighbours_congr h]
  rfl

theorem extremes (h : v.SameOutline w) : v.extremes = w.extremes := by
  obtain ⟨h⟩ := h
  funext pick
  simp only [View.extremes, View.table, Ledger.toList_eq, List.map_map, Function.comp_def,
    getElem_table, length_neighbours_congr h]

theorem matrix (h : v.SameOutline w) : v.matrix = w.matrix := by
  obtain ⟨h⟩ := h
  simp only [View.matrix, View.table, getElem_table, contains_neighbours_congr h]

theorem allDistances (h : v.SameOutline w) : v.allDistances = w.allDistances := by
  obtain ⟨h⟩ := h
  funext n
  simp only [View.allDistances, View.table, hopsFrom_congr h]
  rfl

theorem fingerprint (h : v.SameOutline w) : v.fingerprint = w.fingerprint := by
  obtain ⟨h⟩ := h
  funext n
  simp only [View.fingerprint, View.table, fingerprintAt, hopsFrom_congr h]
  rfl

theorem distance (h : v.SameOutline w) : v.distance = w.distance := by
  obtain ⟨h⟩ := h
  funext a b
  simp only [View.distance, View.table, hopsFrom_congr h]
  rfl

/-- The search for the greatest distance. -/
theorem farthest (h : v.SameOutline w) :
    (List.finRange v.size).foldlM v.farthestAfter 0 =
      (List.finRange w.size).foldlM w.farthestAfter 0 := by
  obtain @⟨num, g, g', h⟩ := h
  have hround : View.farthestAfter ⟨num, g⟩ = View.farthestAfter ⟨num, g'⟩ := by
    funext best i
    simp only [View.farthestAfter, View.table, hopsFrom_congr h]
  exact congrArg (fun f => (List.finRange num.size).foldlM f 0) hround

theorem cutNodes (h : v.SameOutline w) : v.cutNodes = w.cutNodes := by
  obtain ⟨h⟩ := h
  simp only [View.cutNodes, View.table, cutVertices_congr h]

theorem cutNodesOf (h : v.SameOutline w) : v.cutNodesOf = w.cutNodesOf := by
  obtain ⟨h⟩ := h
  funext part
  simp only [View.cutNodesOf, View.table, cutMembers_congr h]
  rfl

theorem farther (h : v.SameOutline w) : v.farther = w.farther := by
  obtain ⟨h⟩ := h
  funext m n
  simp only [View.farther, View.table, fingerprintAt, hopsFrom_congr h]
  rfl

theorem candidates (h : v.SameOutline w) : v.candidates = w.candidates := by
  have hextremes := h.extremes
  have hcut := h.cutNodes
  obtain ⟨h⟩ := h
  simp only [View.candidates, hextremes, hcut, View.table, fingerprintAt, hopsFrom_congr h]

end View.SameOutline

/-- The neighbours of a node of the device are the linked nodes, in node order. -/
theorem neighbours_eq (d : Device) (n : Node) : d.neighbours n =
    if n ∈ d.nodes then .ok (d.nodes.filter (d.linked n)) else .error (.nodeNotFound n) := by
  unfold neighbours
  by_cases hn : n ∈ d.nodes
  · obtain ⟨i, rfl⟩ := exists_nodeAt hn
    rw [position_nodeAt, if_pos hn, linkedNodes_eq]
    rfl
  · rw [position_eq_error hn, if_neg hn]
    rfl

/-! ## Pruning -/

namespace SameOutline

/-- Without a node both have the same outline. -/
theorem removeNode (h : SameOutline d e) (hd : d.removeNode n = .ok d')
    (he : e.removeNode n = .ok e') : SameOutline d' e' := by
  refine of_shape ?_ ?_
  · rw [nodes_of_removeNode hd, nodes_of_removeNode he, h.nodes]
  · rw [shape_of_removeNode hd, shape_of_removeNode he, h.shape]

theorem candidates (h : SameOutline d e) : d.candidates d.table = e.candidates e.table := by
  rw [candidates_view, candidates_view, h.view.candidates]

theorem farther (h : SameOutline d e) : d.farther d.table = e.farther e.table := by
  funext m n
  rw [farther_view, farther_view, h.view.farther]

theorem inStep : InStep SameOutline :=
  ⟨fun h => h.nodes, fun h => h.candidates, fun h => h.removeNode⟩

end SameOutline

/-! ## Findings -/

/-- What is found out about both devices is the same, errors included. Pruning takes the same nodes
away, and what is left has the same outline. Shortest paths and lines are left out: there can be
several, and it depends on the order of the connections which one is found. -/
structure SameFindings (d e : Device) : Prop where
  allDistances : ∀ n, d.allDistances n = e.allDistances n
  fingerprint : ∀ n, d.fingerprint n = e.fingerprint n
  distance : ∀ a b, d.distance a b = e.distance a b
  diameter : d.diameter = e.diameter
  neighbours : ∀ n, d.neighbours n = e.neighbours n
  degree : ∀ n, d.degree n = e.degree n
  minDegreeNodes : d.minDegreeNodes = e.minDegreeNodes
  maxDegreeNodes : d.maxDegreeNodes = e.maxDegreeNodes
  matrix : d.matrix = e.matrix
  articulationPoints : d.articulationPoints = e.articulationPoints
  articulationPointsOf : ∀ part, d.articulationPointsOf part = e.articulationPointsOf part
  worstNode? : ∀ before, d.worstNode? before = e.worstNode? before
  identify : Topology.identify d = Topology.identify e
  taken : ∀ num, (d.prune num).1 = (e.prune num).1
  left : ∀ num, SameOutline (d.prune num).2 (e.prune num).2

/-- What is found out about a device depends on its nodes, in order, and the linked nodes alone. -/
theorem SameOutline.sameFindings (h : SameOutline d e) : SameFindings d e where
  allDistances n := by rw [allDistances_view, allDistances_view, h.view.allDistances]
  fingerprint n := by rw [fingerprint_view, fingerprint_view, h.view.fingerprint]
  distance a b := by rw [distance_view, distance_view, h.view.distance]
  diameter := by rw [diameter_view, diameter_view, h.nodes, h.view.farthest]
  neighbours n := by rw [neighbours_eq, neighbours_eq, h.nodes, funext (h.linked n)]
  degree n := by rw [degree_view, degree_view, h.view.degree]
  minDegreeNodes := by rw [minDegreeNodes_view, minDegreeNodes_view, h.view.extremes]
  maxDegreeNodes := by rw [maxDegreeNodes_view, maxDegreeNodes_view, h.view.extremes]
  matrix := by rw [matrix_view, matrix_view, h.view.matrix]
  articulationPoints := by rw [articulationPoints_view, articulationPoints_view, h.view.cutNodes]
  articulationPointsOf part := by
    rw [articulationPointsOf_view, articulationPointsOf_view, h.view.cutNodesOf]
  worstNode? before := by rw [Device.worstNode?, Device.worstNode?, h.candidates]
  identify := Topology.identify_congr (fun n => by rw [h.nodes]) h.linked
  taken num := (SameOutline.inStep.prune num h h.farther).1
  left num := (SameOutline.inStep.prune num h h.farther).2

/-- Three nodes in a row, connected in one direction. -/
def forward : Device :=
  ofFitting [.ofIndex 0, .ofIndex 1, .ofIndex 2]
    [⟨.ofIndex 0, .ofIndex 1, defaultWeight⟩, ⟨.ofIndex 1, .ofIndex 2, defaultWeight⟩] (by decide)

/-- The same row, connected against this direction and in part in both, with another weight. -/
def backward : Device :=
  ofFitting [.ofIndex 0, .ofIndex 1, .ofIndex 2]
    [⟨.ofIndex 2, .ofIndex 1, .one⟩, ⟨.ofIndex 1, .ofIndex 0, .zero true⟩,
      ⟨.ofIndex 0, .ofIndex 1, defaultWeight⟩] (by decide)

theorem sameFindings_backward : SameOutline forward backward ∧ SameFindings forward backward := by
  have h : SameOutline forward backward :=
    ⟨by decide, (Topology.sameShape_iff.1 (by decide)).2⟩
  exact ⟨h, h.sameFindings⟩

end Device

end CouplingMap
