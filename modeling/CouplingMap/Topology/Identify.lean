import CouplingMap.Device.Query
import CouplingMap.Topology.Basic

/-!
# Recognising topologies

* `Topology.identify`: the topology with exactly the nodes and the linked pairs of a device. Node
  order, directions and weights do not count.
* `Topology.nodesIn`, `Topology.covered`: the two halves of the comparison with the topology.
-/

namespace CouplingMap.Topology

/-- The register that all nodes share. -/
def commonRegister? : List Node → Option String
  | [] => none
  | n :: ns => if ns.all fun m => m.register = n.register then some n.register else none

/-- The least size beyond a coordinate and another size, if it fits 32 bits. -/
def cover? (size i : UInt32) : Option UInt32 :=
  if i.toNat + 1 < UInt32.size then some (max size (i + 1)) else none

/-- The least sizes of a grid that has room for the nodes. -/
def gridSizes? (ns : List Node) : Option (UInt32 × UInt32 × UInt32) :=
  ns.foldlM (fun (rows, cols, layers) n =>
    match n.coordinates with
    | .three r c l => do
      let rows ← cover? rows r
      let cols ← cover? cols c
      let layers ← cover? layers l
      some (rows, cols, layers)
    | _ => none) (0, 0, 0)

/-- The only topology that the names of the nodes allow. -/
def candidate? (ns : List Node) : Option Topology := do
  let register ← commonRegister? ns
  if UInt32.size ≤ ns.length then none
  else if register = fullRegister then some (full (UInt32.ofNat ns.length))
  else if register = ringRegister then some (ring (UInt32.ofNat ns.length))
  else if register = gridRegister then
    let (rows, cols, layers) ← gridSizes? ns
    some (grid rows cols layers)
  else none

/-- The ends of the connections of a device, in bins. -/
def endBins (d : Device) : Bins (Node × Node) :=
  Bins.spread Device.endsKey (d.connections.map Connection.ends)

/-- Whether every connection of `a` links nodes that are linked in `b`. -/
def covered (a b : Device) : Bool :=
  let bins := endBins b
  a.connections.all fun c =>
    bins.holds Device.endsKey c.ends || bins.holds Device.endsKey c.ends.swap

theorem holds_endBins {d : Device} {m n : Node} :
    (endBins d).holds Device.endsKey (m, n) = d.hasConnection m n := by
  rw [Bool.eq_iff_iff, endBins, Bins.holds_spread, Device.hasConnection, Option.isSome_iff_ne_none,
    Ne, Device.find?_eq_none_iff]
  simp [Connection.joins, Connection.ends]

/-- `covered` asks for links. -/
theorem covered_eq (a b : Device) :
    covered a b = a.connections.all fun c => b.linked c.source c.target := by
  simp only [covered, Connection.ends, Prod.swap_prod_mk, holds_endBins, Device.linked]

/-- Whether every node of `a` is one of `b`. -/
def nodesIn (a b : Device) : Bool :=
  let bins := Bins.spread Node.key b.nodes
  a.nodes.all fun n => bins.holds Node.key n

theorem nodesIn_iff {a b : Device} : nodesIn a b = true ↔ ∀ n ∈ a.nodes, n ∈ b.nodes := by
  simp [nodesIn, Bins.holds_spread]

/-- Whether two devices have the same nodes and the same linked pairs. -/
def sameShape (a b : Device) : Bool :=
  nodesIn a b && nodesIn b a && covered a b && covered b a

/-- The topology of a device, if it has one. Sparse coordinates can name a grid that is far larger
than the device, so the numbers of nodes are compared before anything is built. -/
def identify (d : Device) : Option Topology := do
  let t ← candidate? d.nodes
  if t.nodeCount? = some d.size then
    match t.build with
    | .ok canonical => if sameShape d canonical then some t else none
    | .error _ => none
  else none

end CouplingMap.Topology
