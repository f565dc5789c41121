import CouplingMap.Binary64.Basic
import CouplingMap.Node.Basic

/-!
# Errors of devices

* `DeviceError`: why an operation on a device, or a question about it, has no answer.
* `DeviceError.message`: the wording.
-/

namespace CouplingMap

/-- Why a device refuses an operation or cannot answer a question. -/
inductive DeviceError where
  /-- The device has no such node. -/
  | nodeNotFound (node : Node)
  /-- The device has no such connection. -/
  | connectionNotFound (source target : Node)
  /-- A weight must be a finite number. -/
  | invalidWeight (source target : Node) (weight : Binary64)
  /-- A node can be added only once. -/
  | duplicateNode (node : Node)
  /-- A node cannot be connected to itself. -/
  | selfConnection (node : Node)
  /-- The question has no answer without nodes. -/
  | noNodes
  /-- There is no path between the nodes. -/
  | unreachable (source target : Node)
  /-- The lines need more nodes than there are. -/
  | insufficientNodes (required available : Nat)
deriving DecidableEq

namespace DeviceError

/-- The name of a number that is not finite. -/
def weightText (w : Binary64) : String :=
  if w.isNaN then "NaN" else if w.isNegative then "-inf" else "inf"

/-- The wording of a device error. -/
def message : DeviceError → String
  | nodeNotFound n => "Node " ++ n.display ++ " not found in architecture"
  | connectionNotFound a b =>
    "Connection " ++ a.display ++ " -> " ++ b.display ++ " not found in architecture"
  | invalidWeight a b w =>
    "Connection " ++ a.display ++ " -> " ++ b.display ++ " has non-finite weight " ++ weightText w
  | duplicateNode n => "Node " ++ n.display ++ " already exists in architecture"
  | selfConnection n => "Connection from node " ++ n.display ++ " to itself is not allowed"
  | noNodes => "No nodes in architecture"
  | unreachable a b => "Node " ++ b.display ++ " is unreachable from " ++ a.display
  | insufficientNodes required available =>
    "Not enough nodes to satisfy required lengths: need " ++
      String.ofList (Text.digits required) ++ ", have " ++ String.ofList (Text.digits available)

end DeviceError

end CouplingMap
