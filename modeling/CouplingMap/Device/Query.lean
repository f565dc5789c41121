import CouplingMap.Device.Build
import CouplingMap.Graph.Chart

/-!
# Looking at a device

* `Device.position`, `Device.weight`, `Device.neighbours`, `Device.degree`: questions about nodes.
* `Device.undirected`: the graph on the positions of the nodes, with one edge for every two nodes
  that are connected in some direction. `undirected_eq` says in which order its edges are laid.
* `Device.extremes`, `Device.matrix`: degrees and adjacency of the whole device, from its
  connections.
* `Device.restrict`: the part of a device on some of its nodes.
* `==` on devices: the same node order and the same weights between the same nodes.
-/

namespace CouplingMap.Device

/-! ## Nodes and connections -/

/-- The position of a seat in the node order, if the seat is taken. -/
def placeOf? (d : Device) (i : Nat) : Option (Fin d.size) :=
  if h : d.order.idxOf i < d.order.length then some ⟨d.order.idxOf i, h⟩ else none

/-- The position of a node in the node order, if the device has the node. -/
def place? (d : Device) (n : Node) : Option (Fin d.size) := (d.seat? n).bind d.placeOf?

/-- The position of a node in the node order. -/
def position (d : Device) (n : Node) : Except DeviceError (Fin d.size) :=
  match d.place? n with
  | some i => .ok i
  | none => .error (.nodeNotFound n)

theorem isSome_seat_order (d : Device) (i : Fin d.size) :
    (d.seats.get? (d.order.get i)).isSome = true :=
  Option.isSome_iff_exists.2 (d.mem_order.1 (List.get_mem d.order i))

/-- The node at a position. -/
def nodeAt (d : Device) (i : Fin d.size) : Node :=
  (d.seats.get? (d.order.get i)).get (d.isSome_seat_order i)

theorem seat_nodeAt (d : Device) (i : Fin d.size) :
    d.seats.get? (d.order.get i) = some (d.nodeAt i) := (Option.some_get _).symm

theorem getElem?_nodes (d : Device) (i : Fin d.size) : d.nodes[i]? = some (d.nodeAt i) := by
  have h : (d.nodes.map some)[i]? = (d.order.map d.seats.get?)[i]? := by rw [d.map_nodes]
  have hseat := d.seat_nodeAt i
  rw [List.get_eq_getElem] at hseat
  rw [Fin.getElem?_fin, Fin.getElem?_fin, List.getElem?_map, List.getElem?_map,
    List.getElem?_eq_getElem i.isLt, Option.map_some, hseat, Option.map_eq_some_iff] at h
  obtain ⟨n, hn, hni⟩ := h
  rw [Fin.getElem?_fin, hn, hni]

theorem idxOf_nodeAt (d : Device) (i : Fin d.size) : d.nodes.idxOf (d.nodeAt i) = i := by
  obtain ⟨hlt, hi⟩ := List.getElem?_eq_some_iff.1 (d.getElem?_nodes i)
  rw [← hi]
  exact d.nodes_nodup.idxOf_getElem i hlt

theorem nodeAt_mem {d : Device} (i : Fin d.size) : d.nodeAt i ∈ d.nodes :=
  mem_nodes.2 ⟨_, d.seat_nodeAt i⟩

theorem nodeAt_inj {d : Device} {i j : Fin d.size} : d.nodeAt i = d.nodeAt j ↔ i = j := by
  rw [seat_eq_iff (d.seat_nodeAt i) (d.seat_nodeAt j)]
  refine ⟨fun h => Fin.ext ?_, fun h => by rw [h]⟩
  rw [← d.order_nodup.idxOf_getElem i i.isLt, ← d.order_nodup.idxOf_getElem j j.isLt]
  exact congrArg d.order.idxOf h

theorem exists_nodeAt {d : Device} {n : Node} (h : n ∈ d.nodes) : ∃ i, d.nodeAt i = n := by
  obtain ⟨k, hk⟩ := mem_nodes.1 h
  obtain ⟨i, hi, hik⟩ := List.mem_iff_getElem.1 (d.mem_order.2 ⟨n, hk⟩)
  have hseat := d.seat_nodeAt ⟨i, hi⟩
  exact ⟨⟨i, hi⟩, (seat_eq_iff hseat hk).2 hik⟩

/-- A node is placed where it stands in the node order. -/
theorem place?_eq_some {d : Device} {n : Node} {i : Fin d.size} :
    d.place? n = some i ↔ d.nodeAt i = n := by
  simp only [place?, placeOf?, Option.bind_eq_some_iff, seat?_eq_some,
    Option.dite_none_right_eq_some, Option.some.injEq]
  constructor
  · rintro ⟨k, hk, hlt, rfl⟩
    refine (seat_eq_iff (d.seat_nodeAt _) hk).2 ?_
    exact List.getElem_idxOf hlt
  · rintro rfl
    refine ⟨_, d.seat_nodeAt i, ?_⟩
    have h := d.order_nodup.idxOf_getElem i i.isLt
    exact ⟨h ▸ i.isLt, Fin.ext h⟩

theorem place?_eq_none {d : Device} {n : Node} : d.place? n = none ↔ n ∉ d.nodes := by
  rw [Option.eq_none_iff_forall_ne_some]
  constructor
  · intro h hn
    obtain ⟨i, hi⟩ := exists_nodeAt hn
    exact h i (place?_eq_some.2 hi)
  · rintro h i hi
    exact h (place?_eq_some.1 hi ▸ nodeAt_mem i)

theorem position_nodeAt (d : Device) (i : Fin d.size) : d.position (d.nodeAt i) = .ok i := by
  rw [position, place?_eq_some.2 rfl]

theorem position_eq_error {d : Device} {n : Node} (h : n ∉ d.nodes) :
    d.position n = .error (.nodeNotFound n) := by
  rw [position, place?_eq_none.2 h]

/-- Whether there is a connection from `a` to `b`. -/
def hasConnection (d : Device) (a b : Node) : Bool := (d.find? a b).isSome

/-- Whether two nodes are connected in some direction. -/
def linked (d : Device) (a b : Node) : Bool := d.hasConnection a b || d.hasConnection b a

/-- The weight of the connection from `a` to `b`. -/
def weight (d : Device) (a b : Node) : Except DeviceError Binary64 := do
  let i ← d.seat a
  let j ← d.seat b
  match d.linkAt? i j with
  | some l => .ok l.weight
  | none => .error (.connectionNotFound a b)

theorem hasConnection_eq_any (d : Device) (a b : Node) :
    d.hasConnection a b = d.connections.any fun c => c.joins a b := by
  rw [Bool.eq_iff_iff, hasConnection, Option.isSome_iff_ne_none, Ne, find?_eq_none_iff]
  simp

/-- The nodes that are linked to a node, in node order. -/
def linkedNodes (d : Device) (n : Node) : List Node :=
  let touching := d.connections.filter fun c => c.touches n
  d.nodes.filter fun m => touching.any fun c => c.joins n m || c.joins m n

theorem linkedNodes_eq (d : Device) (n : Node) :
    d.linkedNodes n = d.nodes.filter fun m => d.linked n m := by
  simp only [linkedNodes, linked, hasConnection_eq_any, List.any_filter]
  congr 1
  funext m
  rw [Bool.eq_iff_iff]
  simp only [List.any_eq_true, Bool.or_eq_true, Bool.and_eq_true, Connection.joins,
    Connection.touches, decide_eq_true_eq]
  grind

/-- The nodes that are linked to a node of the device, in node order. -/
def neighbours (d : Device) (n : Node) : Except DeviceError (List Node) := do
  let _ ← d.position n
  .ok (d.linkedNodes n)

/-! ## The undirected view -/

/-- The seats that are taken with their positions, in bins. -/
def places (d : Device) : Bins (Nat × Fin d.size) :=
  Bins.spread Prod.fst (d.order.zip (List.finRange d.size))

/-- The position of a seat, looked up in bins. -/
def placeIn? {size : Nat} (places : Bins (Nat × Fin size)) (i : Nat) : Option (Fin size) :=
  (places.find? i fun p => p.1 = i).map Prod.snd

theorem placeOf?_eq_some {d : Device} {i : Nat} {p : Fin d.size} :
    d.placeOf? i = some p ↔ d.order.get p = i := by
  rw [placeOf?, Option.dite_none_right_eq_some]
  constructor
  · rintro ⟨h, hp⟩
    rw [← Option.some.inj hp]
    exact List.getElem_idxOf h
  · rintro rfl
    have hp := d.order_nodup.idxOf_getElem p p.isLt
    exact ⟨hp ▸ p.isLt, congrArg some (Fin.ext hp)⟩

theorem placeIn?_places (d : Device) (i : Nat) : placeIn? d.places i = d.placeOf? i := by
  have hzip (p : Nat × Fin d.size) :
      p ∈ d.order.zip (List.finRange d.size) ↔ d.order.get p.2 = p.1 := by
    simp only [List.mem_iff_getElem?, List.getElem?_zip_eq_some]
    constructor
    · rintro ⟨k, hk, hp⟩
      obtain ⟨hlt, hp⟩ := List.getElem?_eq_some_iff.1 hp
      rw [List.getElem_finRange] at hp
      obtain rfl : k = p.2 := congrArg Fin.val hp
      exact (List.getElem?_eq_some_iff.1 hk).2
    · intro h
      exact ⟨p.2, List.getElem?_eq_some_iff.2 ⟨p.2.isLt, h⟩, by simp⟩
  rw [placeIn?, places, Bins.find?_spread (by simp +contextual)]
  refine Option.ext fun p => ?_
  rw [placeOf?_eq_some, Option.map_eq_some_iff]
  constructor
  · rintro ⟨q, hq, rfl⟩
    have hi := List.find?_some hq
    rw [decide_eq_true_iff] at hi
    exact ((hzip q).1 (List.mem_of_find?_eq_some hq)).trans hi
  · rintro rfl
    cases hf : (d.order.zip (List.finRange d.size)).find? fun q => q.1 = d.order.get p with
    | none => simpa using List.find?_eq_none.1 hf _ ((hzip (d.order.get p, p)).2 rfl)
    | some q =>
      have hi := List.find?_some hf
      rw [decide_eq_true_iff, ← (hzip q).1 (List.mem_of_find?_eq_some hf)] at hi
      exact ⟨q, rfl, Option.some.inj ((placeOf?_eq_some.2 hi).symm.trans (placeOf?_eq_some.2 rfl))⟩

/-- The positions of the ends of a connection. -/
def endPlaces? (d : Device) (c : Connection) : Option (Fin d.size × Fin d.size) :=
  (d.place? c.source).bind fun i => (d.place? c.target).map fun j => (i, j)

/-- The positions of the ends of the connections, in their order. -/
def linkedPlaces (d : Device) : List (Fin d.size × Fin d.size) :=
  let places := d.places
  d.links.toList.filterMap fun l =>
    (placeIn? places l.source).bind fun i => (placeIn? places l.target).map fun j => (i, j)

theorem linkedPlaces_eq (d : Device) : d.linkedPlaces = d.connections.filterMap d.endPlaces? := by
  simp only [linkedPlaces, placeIn?_places]
  rw [connections_eq, List.filterMap_filterMap]
  refine filterMap_congr fun l hl => ?_
  obtain ⟨k, hk⟩ := Slots.mem_toList.1 hl
  obtain ⟨a, ha⟩ := d.mem_order.1 (d.link_fits hk).source_mem
  obtain ⟨b, hb⟩ := d.mem_order.1 (d.link_fits hk).target_mem
  have hc : l.connection? d.seats.get? = some ⟨a, b, l.weight⟩ :=
    Link.connection?_eq_some.2 ⟨ha, hb, rfl⟩
  rw [hc, Option.bind_some, endPlaces?, place?, place?, seat?_eq_some.2 ha, seat?_eq_some.2 hb]
  rfl

/-- The graph on the positions, its edges laid in the order of the connections. -/
def undirected (d : Device) : Graph d.size :=
  ((Graph.Chart.empty d.size).joinAll d.linkedPlaces).graph

theorem undirected_eq (d : Device) :
    d.undirected =
      (d.connections.filterMap d.endPlaces?).foldl (fun g p => g.join p.1 p.2)
        (Graph.empty d.size) := by
  rw [undirected, Graph.Chart.graph_joinAll, linkedPlaces_eq]
  rfl

/-- The neighbours of every position. -/
abbrev Table (d : Device) := Ledger (List (Fin d.size)) d.size

/-- The neighbours of every position, in the order in which searches visit them. -/
def table (d : Device) : d.Table := d.undirected.table

/-! ## Degrees and the matrix -/

/-- The connections by the seats at their ends. -/
structure Incidence where
  outgoing : Bins Link
  incoming : Bins Link

/-- The connections of the device by the seats at their ends. -/
def incidence (d : Device) : Incidence :=
  ⟨Bins.spread Link.source d.links.toList, Bins.spread Link.target d.links.toList⟩

/-- The seats at the other ends of the connections of a seat. A seat that is connected in both
directions stands twice. -/
def Incidence.opposite (t : Incidence) (i : Nat) : List Nat :=
  ((t.outgoing.row i).filter fun l => l.source = i).map Link.target ++
    ((t.incoming.row i).filter fun l => l.target = i).map Link.source

/-- The number of seats that are connected with a seat in some direction. -/
def Incidence.degree (t : Incidence) (i : Nat) : Nat :=
  ((t.opposite i).foldr List.insert []).length

/-- The number of nodes that are linked to a node. -/
def degree (d : Device) (n : Node) : Except DeviceError Nat := do
  let i ← d.seat n
  .ok (d.incidence.degree i)

/-- The best degree so far, and the nodes that have it. -/
structure Leaders where
  best : Option Nat
  nodes : List Node

/-- Looks at the next node: one that is as good as the best so far joins, a better one begins
anew. -/
def Leaders.meet (better : Nat → Nat → Bool) (s : Leaders) (n : Node) (degree : Nat) : Leaders :=
  match s.best with
  | some best =>
    if degree = best then { s with nodes := n :: s.nodes }
    else if better degree best then ⟨some degree, [n]⟩
    else s
  | none => ⟨some degree, [n]⟩

/-- The nodes than which no node has a better degree, in ascending order. -/
def extremes (d : Device) (better : Nat → Nat → Bool) : List Node :=
  let incidence := d.incidence
  Node.sorted <| Leaders.nodes <| (d.nodes.zip d.order).foldl
    (fun s p => s.meet better p.1 (incidence.degree p.2)) ⟨none, []⟩

/-- The nodes of least degree. -/
def minDegreeNodes (d : Device) : List Node := d.extremes fun degree best => degree < best

/-- The nodes of greatest degree. -/
def maxDegreeNodes (d : Device) : List Node := d.extremes fun degree best => best < degree

/-- A mark for every two of some numbers. -/
abbrev Marks (n : Nat) := Ledger (Ledger Bool n) n

/-- No marks. -/
def Marks.blank (n : Nat) : Marks n := .replicate n (.replicate n false)

/-- Marks two numbers in one order. -/
def Marks.mark {n : Nat} (m : Marks n) (i j : Fin n) : Marks n := m.set i (m[i].set j true)

/-- Marks the ends of pairs, in both orders. -/
def Marks.markAll {n : Nat} (m : Marks n) (ps : List (Fin n × Fin n)) : Marks n :=
  ps.foldl (fun m p => (m.mark p.1 p.2).mark p.2 p.1) m

/-- For every two positions, whether the nodes are linked. -/
def matrix (d : Device) : List (List Bool) :=
  ((Marks.blank d.size).markAll d.linkedPlaces).toList.map Ledger.toList

/-! ## Parts and equality -/

/-- The part of a device on some of its nodes, in the given order, with all connections between
them. -/
def restrict (d : Device) (ns : List Node) : Except DeviceError Device :=
  let nodes := d.nodes
  match ns.find? fun n => n ∉ nodes with
  | some n => .error (.nodeNotFound n)
  | none =>
    ofParts ns (d.connections.filter fun c => decide (c.source ∈ ns) && decide (c.target ∈ ns))

/-- Whether a connection does not come after another one, by source and then by target. -/
def connectionNotAfter (c e : Connection) : Bool :=
  ((compare c.source e.source).then (compare c.target e.target)).isLE

/-- Whether two connections join the same nodes with the same number as weight. -/
def sameConnection (c e : Connection) : Bool :=
  c.source = e.source && c.target = e.target && c.weight.sameNumber e.weight

/-- The connections ordered by their ends. -/
def sortedConnections (d : Device) : List Connection := d.connections.mergeSort connectionNotAfter

instance : BEq Device where
  beq d e := d.nodes == e.nodes && d.sortedConnections.isEqv e.sortedConnections sameConnection

end CouplingMap.Device
