import CouplingMap.Device.Build

/-!
# Canonical topologies

A topology is a family of devices given by a few sizes: complete devices, rings and square grids in
layers. The names of the nodes follow from the family and the position alone.

* `Topology.nodes`, `Topology.links`: the nodes in canonical order and the directed connections.
* `Topology.nodeCount?`: the number of nodes, if it fits 64 bits.
* `Topology.build`: the device.
* `Topology.display`: the text of a topology, such as `grid:2x3x1`.
-/

namespace CouplingMap

/-- A family of devices with its sizes. -/
inductive Topology where
  /-- Every node is connected to every other one. -/
  | full (nodes : UInt32)
  /-- Every node is connected to the next one, and the last one to the first. -/
  | ring (nodes : UInt32)
  /-- Nodes are connected to the next one in their row, column and pile of layers. -/
  | grid (rows cols layers : UInt32)
deriving DecidableEq

namespace Topology

/-- The register of the nodes of complete devices. -/
def fullRegister : String := "fcNode"

/-- The register of the nodes of rings. -/
def ringRegister : String := "ringNode"

/-- The register of the nodes of grids. -/
def gridRegister : String := "gridNode"

/-- A node of a complete device. -/
def fullNode (i : Nat) : Node := ⟨fullRegister, .one (UInt32.ofNat i)⟩

/-- A node of a ring. -/
def ringNode (i : Nat) : Node := ⟨ringRegister, .one (UInt32.ofNat i)⟩

/-- A node of a grid. -/
def gridNode (r c l : Nat) : Node :=
  ⟨gridRegister, .three (UInt32.ofNat r) (UInt32.ofNat c) (UInt32.ofNat l)⟩

/-- The product of two numbers, `none` if it does not fit 64 bits. -/
def product? (a b : Nat) : Option Nat := if a * b < UInt64.size then some (a * b) else none

/-- The number of nodes, `none` if it does not fit 64 bits. Sizes are multiplied one after the
other. -/
def nodeCount? : Topology → Option Nat
  | full n => some n.toNat
  | ring n => some n.toNat
  | grid r c l => (product? r.toNat c.toNat).bind fun perLayer => product? perLayer l.toNat

/-- The positions of a grid, layer by layer and row by row. A grid without rows or columns has none,
however many layers it has. -/
def gridPositions (rows cols layers : Nat) : List (Nat × Nat × Nat) :=
  if rows * cols = 0 then []
  else
    (List.range layers).flatMap fun l =>
      (List.range rows).flatMap fun r => (List.range cols).map fun c => (r, c, l)

/-- The positions of a grid are those within its sizes. -/
theorem mem_gridPositions {rows cols layers r c l : Nat} :
    (r, c, l) ∈ gridPositions rows cols layers ↔ r < rows ∧ c < cols ∧ l < layers := by
  unfold gridPositions
  split
  · rename_i h
    rcases Nat.mul_eq_zero.1 h with rfl | rfl <;> simp
  · simp
    grind

/-- The nodes in canonical order. -/
def nodes : Topology → List Node
  | full n => (List.range n.toNat).map fullNode
  | ring n => (List.range n.toNat).map ringNode
  | grid rows cols layers =>
    (gridPositions rows.toNat cols.toNat layers.toNat).map fun (r, c, l) => gridNode r c l

/-- The positions next to one in a grid, in the directions of increasing coordinates. -/
def gridSteps (rows cols layers r c l : Nat) : List (Nat × Nat × Nat) :=
  (if c + 1 < cols then [(r, c + 1, l)] else []) ++
    (if r + 1 < rows then [(r + 1, c, l)] else []) ++
    (if l + 1 < layers then [(r, c, l + 1)] else [])

/-- The directed connections in canonical order. -/
def links : Topology → List (Node × Node)
  | full n =>
    (List.range n.toNat).flatMap fun i =>
      ((List.range n.toNat).filter fun j => i ≠ j).map fun j => (fullNode i, fullNode j)
  | ring n =>
    ((List.range n.toNat).filter fun i => (i + 1) % n.toNat ≠ i).map fun i =>
      (ringNode i, ringNode ((i + 1) % n.toNat))
  | grid rows cols layers =>
    (gridPositions rows.toNat cols.toNat layers.toNat).flatMap fun (r, c, l) =>
      (gridSteps rows.toNat cols.toNat layers.toNat r c l).map fun (r', c', l') =>
        (gridNode r c l, gridNode r' c' l')

/-- The text of a topology as characters. -/
def displayChars : Topology → List Char
  | full n => "full:".toList ++ Text.digits n.toNat
  | ring n => "ring:".toList ++ Text.digits n.toNat
  | grid r c l =>
    "grid:".toList ++ Text.digits r.toNat ++ 'x' :: Text.digits c.toNat ++ 'x' ::
      Text.digits l.toNat

/-- The text of a topology. -/
def display (t : Topology) : String := String.ofList t.displayChars

end Topology

/-- Why a topology is refused. -/
inductive TopologyError where
  /-- The text names no topology. -/
  | unreadable (text : String)
  /-- The nodes cannot be counted with 64 bits. -/
  | tooManyNodes (topology : Topology)
deriving DecidableEq

/-- The wording of a topology error. -/
def TopologyError.message : TopologyError → String
  | .unreadable text => "Invalid topology: " ++ text
  | .tooManyNodes t => "Invalid topology: " ++ t.display ++ " has too many nodes"

/-- Why a topology has no device. -/
inductive BuildError where
  | topology (error : TopologyError)
  | device (error : DeviceError)
deriving DecidableEq

/-- The wording of a build error. -/
def BuildError.message : BuildError → String
  | .topology e => e.message
  | .device e => e.message

/-- The device of a topology. -/
def Topology.build (t : Topology) : Except BuildError Device :=
  match t.nodeCount? with
  | none => .error (.topology (.tooManyNodes t))
  | some _ => (Device.ofParts t.nodes (t.links.map Device.unweighted)).mapError .device

end CouplingMap
