import CouplingMap.Device.Build
import CouplingMap.Node.Json

/-!
# Device descriptions

The JSON form of a device is an object with its `nodes` in node order and its `links`, each with
its two nodes and its `weight`, in slot order. The links may be left out or null.

* `Description.decoder`, `Description.toJson`: reading and writing a description.
* `Device.describe`, `Description.device`: from a device to its description and back.
* `Device.ofText`, `Device.ofJson`, `Device.toText`: the same from and to texts and values.
-/

namespace CouplingMap

open Json

/-- The content of a description. -/
structure Description where
  nodes : List Node
  links : List Connection
deriving DecidableEq

namespace Description

/-- The title of a list of two nodes in messages. -/
def pairTitle : String := "a tuple of size 2"

/-- A link: two nodes and a weight. -/
def linkDecoder : Decoder Connection :=
  (Decoder.record "struct LinkEntry" ⟨"link", .pair pairTitle pairTitle Node.decoder Node.decoder,
    none⟩ ⟨"weight", .double, none⟩).map fun (p, w) => ⟨p.1, p.2, w⟩

/-- A description: nodes, and links unless they are left out or null. -/
def decoder : Decoder Description :=
  (Decoder.record "struct DeviceDescription" ⟨"nodes", .list Node.decoder, none⟩
    ⟨"links", .orNull (.list linkDecoder), some none⟩).map fun (nodes, links) =>
      ⟨nodes, links.getD []⟩

/-- The JSON form of a link. -/
def linkToJson (l : Connection) : Json :=
  .object [("link", .list [l.source.toJson, l.target.toJson]),
    ("weight", .number (.double l.weight))]

/-- The JSON form of a description. -/
def toJson (d : Description) : Json :=
  .object [("nodes", .list (d.nodes.map Node.toJson)), ("links", .list (d.links.map linkToJson))]

/-- The device of a description: the nodes are added first, in order, and then the links. -/
def device (d : Description) : Except DeviceError Device := Device.ofParts d.nodes d.links

end Description

/-- Why a text or a value does not describe a device. -/
inductive DescriptionError where
  | text (error : ReadError)
  | value (error : Mismatch)
  | device (error : DeviceError)

namespace Device

/-- The description of a device. -/
def describe (d : Device) : Description := ⟨d.nodes, d.connections⟩

/-- The device that a text describes. -/
def ofText (s : String) : Except DescriptionError Device := do
  let description ← (Description.decoder.ofText s).mapError .text
  description.device.mapError .device

/-- The device that a value describes. -/
def ofJson (v : Json) : Except DescriptionError Device := do
  let description ← (Description.decoder.fromValue v).mapError .value
  description.device.mapError .device

/-- The JSON form of a device. -/
def toJson (d : Device) : Json := d.describe.toJson

/-- The text of a device, over several lines or without blanks. -/
def toText (d : Device) (lines : Bool) : String := d.toJson.write lines

end Device

end CouplingMap
