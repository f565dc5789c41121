import CouplingMap.Proofs.Device.Description
import CouplingMap.Proofs.Device.Refinement
import CouplingMap.Proofs.Device.Readout
import CouplingMap.Topology.Identify

/-!
# A device that is made from the JSON form of another one

The new device keeps its nodes and connections in fresh seats and slots. It has them in the same
order, and no question can tell more.

* `Device.Alike`: devices with the same nodes and connections in the same order.
* `Device.Answers`, `Device.answers`: all that can be asked of a device. `Alike.answers_eq` says
  that devices that are alike give the same answers.
* `Device.ofJson_toJson`: which devices are made from their JSON forms, and that they answer like
  the original.
-/

namespace CouplingMap.Device

variable {d e d' e' : Device} {n : Node}

/-! ## Devices that are alike -/

/-- Devices with the same nodes and connections in the same order. Seats and slots may differ. -/
structure Alike (d e : Device) : Prop where
  nodes : d.nodes = e.nodes
  connections : d.connections = e.connections

namespace Alike

theorem view (h : Alike d e) : d.view = e.view := view_eq h.nodes h.connections

theorem size (h : Alike d e) : d.size = e.size := congrArg (·.size) h.view

/-- Both find the same connections. -/
theorem network (h : Alike d e) : d.network = e.network := by
  refine network_eq h.nodes fun a b w => ?_
  rw [weight?_network, h.connections]

/-- Without a node both are alike. -/
theorem removeNode (h : Alike d e) (hd : d.removeNode n = .ok d') (he : e.removeNode n = .ok e') :
    Alike d' e' := by
  constructor
  · rw [nodes_of_removeNode hd, nodes_of_removeNode he, h.nodes]
  · rw [connections_of_removeNode hd, connections_of_removeNode he, h.connections]

theorem candidates (h : Alike d e) : d.candidates d.table = e.candidates e.table := by
  rw [candidates_view, candidates_view, h.view]

theorem farther (h : Alike d e) : d.farther d.table = e.farther e.table := by
  funext m n
  rw [farther_view, farther_view, h.view]

theorem inStep : InStep Alike :=
  ⟨fun h => h.nodes, fun h => h.candidates, fun h => h.removeNode⟩

end Alike

/-! ## Answers -/

/-- All that can be asked of a device. A question that takes a second device is there once for each
of its two roles. -/
structure Answers where
  nodes : List Node
  size : Nat
  contains : Node → Bool
  position : Node → Except DeviceError Nat
  connections : List Connection
  connectionCount : Nat
  hasConnection : Node → Node → Bool
  linked : Node → Node → Bool
  weight : Node → Node → Except DeviceError Binary64
  neighbours : Node → Except DeviceError (List Node)
  degree : Node → Except DeviceError Nat
  /-- The edges of the undirected view, in the order in which they were laid. -/
  edges : List (Nat × Nat)
  minDegreeNodes : List Node
  maxDegreeNodes : List Node
  matrix : List (List Bool)
  distance : Node → Node → Except DeviceError Nat
  shortestPath : Node → Node → Except DeviceError (List Node)
  allDistances : Node → Except DeviceError (List (Option Nat))
  fingerprint : Node → Except DeviceError (List (Option Nat))
  diameter : Except DeviceError Nat
  lines : List Nat → Except DeviceError (List (List Node))
  articulationPoints : List Node
  articulationPointsOf : Device → Except DeviceError (List Node)
  articulationPointsIn : Device → Except DeviceError (List Node)
  worstNode? : Device → Option Node
  worstNodeOf? : Device → Option Node
  /-- The nodes that pruning takes away, and the nodes and connections that it leaves. -/
  prune : Nat → List Node × List Node × List Connection
  restrict : List Node → Except DeviceError Device
  identify : Option Topology
  equals : Device → Bool
  toJson : Json
  toText : Bool → String

/-- The answers of a device. -/
def answers (d : Device) : Answers where
  nodes := d.nodes
  size := d.size
  contains := d.contains
  position n := (d.position n).map Fin.val
  connections := d.connections
  connectionCount := d.connectionCount
  hasConnection := d.hasConnection
  linked := d.linked
  weight := d.weight
  neighbours := d.neighbours
  degree := d.degree
  edges := d.undirected.edges.map fun p => (p.1, p.2)
  minDegreeNodes := d.minDegreeNodes
  maxDegreeNodes := d.maxDegreeNodes
  matrix := d.matrix
  distance := d.distance
  shortestPath := d.shortestPath
  allDistances := d.allDistances
  fingerprint := d.fingerprint
  diameter := d.diameter
  lines := d.lines
  articulationPoints := d.articulationPoints
  articulationPointsOf part := d.articulationPointsOf part
  articulationPointsIn whole := whole.articulationPointsOf d
  worstNode? before := d.worstNode? before
  worstNodeOf? now := now.worstNode? d
  prune num := ((d.prune num).1, (d.prune num).2.nodes, (d.prune num).2.connections)
  restrict := d.restrict
  identify := Topology.identify d
  equals x := d == x
  toJson := d.toJson
  toText := d.toText

namespace Alike

/-! ### Answers from the view -/

theorem position (h : Alike d e) (n : Node) :
    (d.position n).map Fin.val = (e.position n).map Fin.val := by
  rw [position_view, position_view]
  exact congrArg (fun v : View => (v.position n).map Fin.val) h.view

theorem degree (h : Alike d e) : d.degree = e.degree := by
  funext n
  rw [degree_view, degree_view, h.view]

theorem edges (h : Alike d e) :
    (d.undirected.edges.map fun p => ((p.1, p.2) : Nat × Nat)) =
      e.undirected.edges.map fun p => ((p.1, p.2) : Nat × Nat) := by
  rw [edges_view, edges_view, h.view]

theorem minDegreeNodes (h : Alike d e) : d.minDegreeNodes = e.minDegreeNodes := by
  rw [minDegreeNodes_view, minDegreeNodes_view, h.view]

theorem maxDegreeNodes (h : Alike d e) : d.maxDegreeNodes = e.maxDegreeNodes := by
  rw [maxDegreeNodes_view, maxDegreeNodes_view, h.view]

theorem matrix (h : Alike d e) : d.matrix = e.matrix := by
  rw [matrix_view, matrix_view, h.view]

theorem distance (h : Alike d e) : d.distance = e.distance := by
  funext a b
  rw [distance_view, distance_view, h.view]

theorem shortestPath (h : Alike d e) : d.shortestPath = e.shortestPath := by
  funext a b
  rw [shortestPath_view, shortestPath_view, h.view]

theorem allDistances (h : Alike d e) : d.allDistances = e.allDistances := by
  funext n
  rw [allDistances_view, allDistances_view, h.view]

theorem fingerprint (h : Alike d e) : d.fingerprint = e.fingerprint := by
  funext n
  rw [fingerprint_view, fingerprint_view, h.view]

theorem diameter (h : Alike d e) : d.diameter = e.diameter := by
  rw [diameter_view, diameter_view, h.nodes, h.view]

theorem lines (h : Alike d e) : d.lines = e.lines := by
  rw [lines_view, lines_view, h.view]

theorem articulationPoints (h : Alike d e) : d.articulationPoints = e.articulationPoints := by
  rw [articulationPoints_view, articulationPoints_view, h.view]

theorem articulationPointsOf (h : Alike d e) (h' : Alike d' e') :
    d.articulationPointsOf d' = e.articulationPointsOf e' := by
  rw [articulationPointsOf_view, articulationPointsOf_view, h.view, h'.nodes]

theorem worstNode? (h : Alike d e) (h' : Alike d' e') : d.worstNode? d' = e.worstNode? e' := by
  rw [Device.worstNode?, Device.worstNode?, h.candidates, h'.farther]

theorem prune (h : Alike d e) (num : Nat) :
    (d.prune num).1 = (e.prune num).1 ∧ Alike (d.prune num).2 (e.prune num).2 :=
  inStep.prune num h h.farther

/-! ### Answers from the lists -/

theorem contains (h : Alike d e) : d.contains = e.contains := by
  funext n
  rw [Bool.eq_iff_iff, contains_iff, contains_iff, h.nodes]

theorem connectionCount (h : Alike d e) : d.connectionCount = e.connectionCount := by
  rw [connectionCount_eq, connectionCount_eq, h.connections]

theorem hasConnection (h : Alike d e) : d.hasConnection = e.hasConnection := by
  funext a b
  rw [hasConnection_eq_any, hasConnection_eq_any, h.connections]

theorem linked (h : Alike d e) : d.linked = e.linked := by
  funext a b
  rw [Device.linked, Device.linked, h.hasConnection]

theorem weight (h : Alike d e) : d.weight = e.weight := by
  funext a b
  rw [weight_eq, weight_eq, h.network]

theorem neighbours (h : Alike d e) : d.neighbours = e.neighbours := by
  funext n
  have hlinked : d.linkedNodes n = e.linkedNodes n := by
    rw [linkedNodes_eq, linkedNodes_eq, h.nodes, h.linked]
  unfold Device.neighbours
  rw [hlinked, position_view, position_view]
  exact congrArg (fun v : View => v.position n >>= fun _ => .ok (e.linkedNodes n)) h.view

theorem restrict (h : Alike d e) : d.restrict = e.restrict := by
  funext ns
  rw [Device.restrict, h.nodes, h.connections]
  rfl

theorem identify (h : Alike d e) : Topology.identify d = Topology.identify e := by
  unfold Topology.identify Topology.sameShape Topology.nodesIn Topology.covered Topology.endBins
  rw [h.nodes, h.connections, h.size]

theorem beq (h : Alike d e) (x : Device) : (d == x) = (e == x) := by
  show (d.nodes == x.nodes && d.sortedConnections.isEqv _ _) = _
  rw [sortedConnections, h.nodes, h.connections]
  rfl

theorem toJson (h : Alike d e) : d.toJson = e.toJson := by
  rw [Device.toJson, Device.toJson, describe, describe, h.nodes, h.connections]

/-- Devices that are alike give the same answers. -/
theorem answers_eq (h : Alike d e) : d.answers = e.answers := by
  have hself (x : Device) : Alike x x := ⟨rfl, rfl⟩
  have hprune (num : Nat) : ((d.prune num).1, (d.prune num).2.nodes, (d.prune num).2.connections) =
      ((e.prune num).1, (e.prune num).2.nodes, (e.prune num).2.connections) := by
    obtain ⟨htaken, hleft⟩ := h.prune num
    rw [htaken, hleft.nodes, hleft.connections]
  have htext : d.toText = e.toText := by
    funext lines
    rw [toText, toText, h.toJson]
  rw [answers, answers, Answers.mk.injEq]
  exact ⟨h.nodes, h.size, h.contains, funext h.position, h.connections, h.connectionCount,
    h.hasConnection, h.linked, h.weight, h.neighbours, h.degree, h.edges,
    h.minDegreeNodes, h.maxDegreeNodes, h.matrix, h.distance, h.shortestPath, h.allDistances, h.fingerprint, h.diameter, h.lines, h.articulationPoints,
    funext fun part => h.articulationPointsOf (hself part),
    funext fun whole => (hself whole).articulationPointsOf h,
    funext fun before => h.worstNode? (hself before), funext fun now => (hself now).worstNode? h,
    funext hprune, h.restrict, h.identify, funext h.beq, h.toJson, htext⟩

end Alike

/-! ## Reloading -/

/-- A device equals itself. -/
theorem beq_self (d : Device) : (d == d) = true := by
  have hsame : ∀ c ∈ d.sortedConnections, sameConnection c c = true := by
    intro c hc
    have hfinite := (fits_of_mem ((List.mergeSort_perm _ _).mem_iff.1 hc)).finite
    simp [sameConnection, Binary64.sameNumber_self hfinite]
  show (d.nodes == d.nodes && d.sortedConnections.isEqv d.sortedConnections sameConnection) = true
  rw [BEq.rfl, Bool.true_and, List.isEqv_eq_decide, dif_pos rfl, decide_eq_true_iff]
  exact fun i hi => hsame _ (List.getElem_mem hi)

/-- What is made from the JSON form of a device is what its description describes. -/
theorem ofJson_toJson_eq_ok_iff :
    ofJson d.toJson = .ok e ↔ (∀ n ∈ d.nodes, n.register ≠ "") ∧ d.describe.device = .ok e := by
  rw [ofJson, bind_eq_ok]
  simp only [mapError_eq_ok, fromValue_toJson_iff]
  constructor
  · rintro ⟨D, ⟨hnamed, rfl⟩, hdevice⟩
    exact ⟨hnamed, hdevice⟩
  · rintro ⟨hnamed, hdevice⟩
    exact ⟨_, ⟨hnamed, rfl⟩, hdevice⟩

/-- A device is made from its JSON form just if all of its nodes are named. It has the same nodes
and connections in the same order, equals the original, and gives the same answers. -/
theorem ofJson_toJson (d : Device) :
    ((∃ e, ofJson d.toJson = .ok e) ↔ ∀ n ∈ d.nodes, n.register ≠ "") ∧
      ∀ e, ofJson d.toJson = .ok e → e.nodes = d.nodes ∧ e.connections = d.connections ∧
        (d == e) = true ∧ e.answers = d.answers := by
  obtain ⟨made, hmade, hnodes, hconnections⟩ :=
    Description.exists_device (D := d.describe) d.fitting
  have halike : Alike made d := ⟨hnodes, hconnections⟩
  constructor
  · constructor
    · rintro ⟨e, he⟩
      exact (ofJson_toJson_eq_ok_iff.1 he).1
    · exact fun hnamed => ⟨made, ofJson_toJson_eq_ok_iff.2 ⟨hnamed, hmade⟩⟩
  · intro e he
    obtain rfl : made = e :=
      Except.ok.inj (hmade.symm.trans (ofJson_toJson_eq_ok_iff.1 he).2)
    have hequals : (d == made) = true :=
      (congrArg (fun a : Answers => a.equals made) halike.answers_eq).symm.trans (beq_self made)
    exact ⟨hnodes, hconnections, hequals, halike.answers_eq⟩

end CouplingMap.Device
