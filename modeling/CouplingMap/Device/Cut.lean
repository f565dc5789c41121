import CouplingMap.Device.Query
import CouplingMap.Graph.Components
import CouplingMap.Graph.LowLink

/-!
# Articulation points

* `Device.articulationPoints`: the nodes whose removal takes other nodes apart that were connected.
* `Device.articulationPointsOf`: the same with respect to some of the nodes: paths may use the
  whole device, but only nodes of the part count as taken apart.
-/

namespace CouplingMap.Device

open CouplingMap.Graph

/-- The nodes at the cut vertices, in ascending order. -/
def cutNodes (d : Device) (t : d.Table) : List Node :=
  Node.sorted ((cutVertices (lookup t)).map d.nodeAt)

/-- The nodes whose removal separates other nodes, in ascending order. -/
def articulationPoints (d : Device) : List Node := d.cutNodes d.table

/-- The nodes of `part` whose removal separates other nodes of `part`, in ascending order. -/
def articulationPointsOf (d part : Device) : Except DeviceError (List Node) := do
  let members ← part.nodes.mapM d.position
  .ok (Node.sorted ((cutMembers (lookup d.table) members).map d.nodeAt))

end CouplingMap.Device
