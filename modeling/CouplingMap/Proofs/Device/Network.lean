import CouplingMap.Device.Build
import Mathlib.Data.List.Nodup
import Mathlib.Data.List.ProdSigma

/-!
# Networks

A network is a device without its store: a list of nodes, and a map that gives some pairs of nodes
a weight. Edits are written out on the list and on the map, so that they can be read as what edits
of devices should do.

* `Network`: the list has no node twice; only pairs of different listed nodes have a weight, which
  is finite.
* `Network.addNode`, `Network.removeNode`, `Network.connect`, `Network.disconnect`: edits, with
  their errors.
* `Network.position`, `Network.weight`, `Network.pairs`, `Network.connections`: questions.
* `Edit`, `Start`: edits and constructors by name. `Edit.runAll` tells what comes of many edits,
  refused ones included.
-/

namespace CouplingMap

/-! ## Networks -/

/-- Nodes in order, and weights of pairs of nodes. -/
@[ext]
structure Network where
  nodes : List Node
  weight? : Node → Node → Option Binary64
  nodes_nodup : nodes.Nodup
  fits : ∀ {a b : Node} {w : Binary64}, weight? a b = some w → Connection.Fits ⟨a, b, w⟩ nodes

namespace Network

variable {N : Network} {a b n : Node} {w : Binary64} {c : Connection} {p : Node × Node}

/-- The network without nodes. -/
def empty : Network := ⟨[], fun _ _ => none, .nil, nofun⟩

/-! ## Questions -/

/-- The place of a node in the list. -/
def position (N : Network) (n : Node) : Except DeviceError Nat :=
  if n ∈ N.nodes then .ok (N.nodes.idxOf n) else .error (.nodeNotFound n)

/-- The weight of a pair. -/
def weight (N : Network) (a b : Node) : Except DeviceError Binary64 :=
  if a ∉ N.nodes then .error (.nodeNotFound a)
  else if b ∉ N.nodes then .error (.nodeNotFound b)
  else match N.weight? a b with
    | some w => .ok w
    | none => .error (.connectionNotFound a b)

/-- The pairs that have a weight. -/
def pairs (N : Network) : List (Node × Node) :=
  (N.nodes ×ˢ N.nodes).filter fun p => (N.weight? p.1 p.2).isSome

/-- The pairs with their weights. -/
def connections (N : Network) : List Connection :=
  N.pairs.filterMap fun p => (N.weight? p.1 p.2).map fun w => ⟨p.1, p.2, w⟩

/-- All pairs that have a weight are listed. -/
theorem mem_pairs : p ∈ N.pairs ↔ (N.weight? p.1 p.2).isSome = true := by
  rw [pairs, List.mem_filter, List.mem_product]
  refine and_iff_right_of_imp fun h => ?_
  obtain ⟨w, hw⟩ := Option.isSome_iff_exists.1 h
  exact ⟨(N.fits hw).source_mem, (N.fits hw).target_mem⟩

theorem pairs_nodup (N : Network) : N.pairs.Nodup :=
  (N.nodes_nodup.product N.nodes_nodup).filter _

theorem mem_connections : c ∈ N.connections ↔ N.weight? c.source c.target = some c.weight := by
  simp only [connections, List.mem_filterMap, mem_pairs, Option.map_eq_some_iff]
  constructor
  · rintro ⟨p, -, w, hw, rfl⟩
    exact hw
  · intro h
    exact ⟨c.ends, Option.isSome_iff_exists.2 ⟨_, h⟩, _, h, rfl⟩

/-- Every pair is listed with one weight. -/
theorem map_connections (N : Network) : N.connections.map Connection.ends = N.pairs := by
  rw [connections, List.map_filterMap]
  refine filterMap_eq_of_map (List.map_congr_left fun p hp => ?_)
  obtain ⟨w, hw⟩ := Option.isSome_iff_exists.1 (mem_pairs.1 hp)
  rw [hw]
  rfl

theorem connections_nodup (N : Network) : N.connections.Nodup :=
  List.Nodup.of_map Connection.ends (N.map_connections ▸ N.pairs_nodup)

/-! ## Edits -/

/-- The network with one node more. -/
def withNode (N : Network) (n : Node) (h : n ∉ N.nodes) : Network where
  nodes := N.nodes ++ [n]
  weight? := N.weight?
  nodes_nodup := List.nodup_append.2 ⟨N.nodes_nodup, List.nodup_singleton n, by
    rintro a ha b hb rfl
    exact h (List.mem_singleton.1 hb ▸ ha)⟩
  fits := fun hw =>
    { N.fits hw with
      source_mem := List.mem_append_left _ (N.fits hw).source_mem
      target_mem := List.mem_append_left _ (N.fits hw).target_mem }

/-- Adds a node at the end of the list. -/
def addNode (N : Network) (n : Node) : Except DeviceError Network :=
  if h : n ∈ N.nodes then .error (.duplicateNode n) else .ok (N.withNode n h)

/-- The network with a node that it may have already. -/
def ensureNode (N : Network) (n : Node) : Network :=
  if h : n ∈ N.nodes then N else N.withNode n h

/-- The network without a node and the weights of its pairs. -/
def without (N : Network) (n : Node) : Network where
  nodes := N.nodes.filter fun m => m ≠ n
  weight? a b := if a = n ∨ b = n then none else N.weight? a b
  nodes_nodup := N.nodes_nodup.filter _
  fits := by
    intro a b w hw
    rw [ite_eq_iff] at hw
    obtain ⟨-, hw⟩ | ⟨hne, hw⟩ := hw
    · contradiction
    · rw [not_or] at hne
      have hf := N.fits hw
      refine ⟨?_, ?_, hf.ne, hf.finite⟩
      · exact List.mem_filter.2 ⟨hf.source_mem, decide_eq_true hne.1⟩
      · exact List.mem_filter.2 ⟨hf.target_mem, decide_eq_true hne.2⟩

theorem weight?_without (N : Network) (n a b : Node) :
    (N.without n).weight? a b = if a = n ∨ b = n then none else N.weight? a b := rfl

/-- Removes a node. -/
def removeNode (N : Network) (n : Node) : Except DeviceError Network :=
  if n ∈ N.nodes then .ok (N.without n) else .error (.nodeNotFound n)

/-- The network in which `a` and `b` have another weight or none. -/
def withWeight (N : Network) (a b : Node) (v : Option Binary64)
    (h : ∀ w, v = some w → Connection.Fits ⟨a, b, w⟩ N.nodes) : Network :=
  { N with
    weight? := fun x y => if x = a ∧ y = b then v else N.weight? x y
    fits := by
      intro x y w hw
      rw [ite_eq_iff] at hw
      obtain ⟨⟨rfl, rfl⟩, hw⟩ | ⟨-, hw⟩ := hw
      · exact h w hw
      · exact N.fits hw }

theorem weight?_withWeight {v : Option Binary64}
    (h : ∀ w, v = some w → Connection.Fits ⟨a, b, w⟩ N.nodes) (x y : Node) :
    (N.withWeight a b v h).weight? x y = if x = a ∧ y = b then v else N.weight? x y := rfl

/-- Connects `a` to `b` with a weight, or changes the weight. -/
def connect (N : Network) (a b : Node) (w : Binary64) : Except DeviceError Network :=
  if ha : a ∉ N.nodes then .error (.nodeNotFound a)
  else if hb : b ∉ N.nodes then .error (.nodeNotFound b)
  else if hne : a = b then .error (.selfConnection a)
  else if hw : w.isFinite = false then .error (.invalidWeight a b w)
  else .ok (N.withWeight a b (some w) fun v hv => by
    obtain rfl := Option.some.inj hv
    exact ⟨not_not.1 ha, not_not.1 hb, hne, eq_true_of_ne_false hw⟩)

/-- Takes the weight of `a` and `b` away. -/
def disconnect (N : Network) (a b : Node) : Except DeviceError Network :=
  if a ∉ N.nodes then .error (.nodeNotFound a)
  else if b ∉ N.nodes then .error (.nodeNotFound b)
  else if N.weight? a b = none then .error (.connectionNotFound a b)
  else .ok (N.withWeight a b none nofun)

/-! ## Constructors -/

/-- Adds nodes in order. -/
def ofNodes (ns : List Node) : Except DeviceError Network := ns.foldlM addNode empty

/-- Adds connections in order. -/
def connectAll (N : Network) (cs : List Connection) : Except DeviceError Network :=
  cs.foldlM (fun N c => N.connect c.source c.target c.weight) N

/-- The network of a list of connections, whose ends become nodes in the order in which they
appear. -/
def ofConnections (ps : List (Node × Node)) : Except DeviceError Network :=
  ps.foldlM (fun N p => ((N.ensureNode p.1).ensureNode p.2).connect p.1 p.2 Device.defaultWeight)
    empty

/-- The network with the given nodes and connections. -/
def ofParts (ns : List Node) (cs : List Connection) : Except DeviceError Network := do
  (← ofNodes ns).connectAll cs

end Network

/-! ## Edits and constructors by name -/

/-- An edit of a device or a network. -/
inductive Edit where
  | addNode (n : Node)
  | removeNode (n : Node)
  /-- Connects two nodes with the default weight. -/
  | connect (a b : Node)
  | connectWeighted (a b : Node) (w : Binary64)
  | disconnect (a b : Node)

/-- A constructor with its arguments. -/
inductive Start where
  | empty
  | nodes (ns : List Node)
  | connections (ps : List (Node × Node))
  | parts (ns : List Node) (ps : List (Node × Node))
  | weightedParts (ns : List Node) (cs : List Connection)

namespace Edit

/-- What comes of edits in order: the last state, and for every edit the error if it was refused.
An edit that is refused changes nothing. -/
def runAll {σ : Type} (edit : σ → Edit → Except DeviceError σ) (s : σ) :
    List Edit → σ × List (Option DeviceError)
  | [] => (s, [])
  | e :: es =>
    match edit s e with
    | .ok t => ((runAll edit t es).1, none :: (runAll edit t es).2)
    | .error x => ((runAll edit s es).1, some x :: (runAll edit s es).2)

end Edit

namespace Device

/-- An edit of a device. -/
def edit (d : Device) : Edit → Except DeviceError Device
  | .addNode n => d.addNode n
  | .removeNode n => d.removeNode n
  | .connect a b => d.connect a b defaultWeight
  | .connectWeighted a b w => d.connect a b w
  | .disconnect a b => d.disconnect a b

/-- The device that a constructor makes. -/
def start : Start → Except DeviceError Device
  | .empty => .ok empty
  | .nodes ns => ofNodes ns
  | .connections ps => ofConnections ps
  | .parts ns ps => ofParts ns (ps.map unweighted)
  | .weightedParts ns cs => ofParts ns cs

end Device

namespace Network

/-- An edit of a network. -/
def edit (N : Network) : Edit → Except DeviceError Network
  | .addNode n => N.addNode n
  | .removeNode n => N.removeNode n
  | .connect a b => N.connect a b Device.defaultWeight
  | .connectWeighted a b w => N.connect a b w
  | .disconnect a b => N.disconnect a b

/-- The network that a constructor makes. -/
def start : Start → Except DeviceError Network
  | .empty => .ok empty
  | .nodes ns => ofNodes ns
  | .connections ps => ofConnections ps
  | .parts ns ps => ofParts ns (ps.map Device.unweighted)
  | .weightedParts ns cs => ofParts ns cs

end Network

end CouplingMap
