import CouplingMap.Json.Decoder
import CouplingMap.Node.Basic

/-!
# Nodes in JSON

The JSON form of a node is `["register", [i, j, k]]`.

* `Node.decoder`, `Node.toJson`: reading and writing it.
-/

namespace CouplingMap.Node

open Json

/-- The parts of a node: a register and a list of coordinates. -/
def partsDecoder : Decoder (String × List UInt32) :=
  .pair "tuple struct RawNode" (Decoder.twoElements "tuple struct RawNode") .string
    (.list .uint32)

/-- A node: its parts must satisfy the rule for nodes. -/
def decoder : Decoder Node :=
  partsDecoder.check fun p => (ofParts p.1 p.2).mapError NodeError.message

/-- The JSON form of a node. -/
def toJson (n : Node) : Json :=
  .list [.string n.register, .list (n.index.map fun i => .number (.integer i.toNat))]

end CouplingMap.Node
