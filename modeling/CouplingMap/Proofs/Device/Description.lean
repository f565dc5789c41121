import CouplingMap.Device.Description
import CouplingMap.Proofs.Json.Decoder

/-!
# Descriptions are read back

* `Node.reads`, `Node.inverts`: a node is read from its texts, and from its JSON form, just if its
  register has a name.
* `Description.reads`, `Description.inverts`: the same for descriptions. From texts come the weights
  that are read.
* `Description.exists_device`: a description of what fits describes a device. `Device.fitting` and
  `Device.fitting_reweigh` say that what comes from a device fits, whatever its weights become.
-/

namespace CouplingMap

open Json

/-! ## Nodes -/

namespace Node

/-- The rule for nodes refuses just those whose register has no name. -/
theorem ofParts_mapError_eq_ok {n m : Node} :
    (ofParts n.register n.index).mapError NodeError.message = .ok m ↔ n.register ≠ "" ∧ n = m := by
  rw [mapError_eq_ok, ofParts_eq_ok_iff]
  constructor
  · rintro ⟨hname, hregister, hindex⟩
    have hm := ofParts_index (n := m) (hregister ▸ hname)
    rw [hregister, hindex, ofParts_index hname] at hm
    exact ⟨hname, Except.ok.inj hm⟩
  · rintro ⟨hname, rfl⟩
    exact ⟨hname, rfl, rfl⟩

/-- A node is read from its texts if its register has a name. -/
theorem reads {n : Node} (h : n.register ≠ "") : decoder.Reads n.toJson n := by
  have hindex : (Decoder.list .uint32).Reads (.list (n.index.map _)) n.index :=
    .list_map fun i _ => Decoder.reads_uint32 i
  have hparts := (Decoder.reads_string n.register).pair "tuple struct RawNode"
    (Decoder.twoElements "tuple struct RawNode") hindex
  exact hparts.check (ofParts_mapError_eq_ok.2 ⟨h, rfl⟩)

/-- A node is read from its JSON form just if its register has a name. -/
theorem inverts : decoder.Inverts toJson fun n => n.register ≠ "" := by
  have hparts := Decoder.inverts_string.pair "tuple struct RawNode"
    (Decoder.twoElements "tuple struct RawNode") Decoder.inverts_uint32.list
  have h := hparts.check (fun p => (ofParts p.1 p.2).mapError NodeError.message)
    (fun n : Node => (n.register, n.index)) fun _ _ => ofParts_mapError_eq_ok
  intro n m
  refine (h n m).trans ?_
  simp

end Node

/-! ## Descriptions -/

namespace Description

/-- A link is read from its texts if its nodes are named, with the weight that is read. -/
theorem reads_link {l : Connection} {w : Binary64} (hsource : l.source.register ≠ "")
    (htarget : l.target.register ≠ "")
    (hweight : Decoder.double.Reads (.number (.double l.weight)) w) :
    linkDecoder.Reads (linkToJson l) ⟨l.source, l.target, w⟩ := by
  have hends := (Node.reads hsource).pair pairTitle pairTitle (Node.reads htarget)
  have hrecord := hends.record "struct LinkEntry" ⟨"link", _, none⟩ ⟨"weight", _, none⟩ (by decide)
    hweight
  exact hrecord.map _

/-- A link is read from its JSON form just if its nodes are named. -/
theorem inverts_link : linkDecoder.Inverts linkToJson
    fun l => l.source.register ≠ "" ∧ l.target.register ≠ "" := by
  have hends := Node.inverts.pair pairTitle pairTitle Node.inverts
  have hrecord := hends.record "struct LinkEntry" ⟨"link", _, none⟩ ⟨"weight", _, none⟩ (by decide)
    Decoder.inverts_double
  have h := hrecord.map (fun r => ⟨r.1.1, r.1.2, r.2⟩)
    (fun l : Connection => ((l.source, l.target), l.weight)) fun _ => rfl
  intro l m
  refine (h l m).trans ?_
  simp

/-- A description is read from its texts if all nodes in it are named, with the links that are
read. -/
theorem reads {ns : List Node} {ls ls' : List Connection} (hnodes : ∀ n ∈ ns, n.register ≠ "")
    (hlinks : List.Forall₂ (fun l l' => linkDecoder.Reads (linkToJson l) l') ls ls') :
    decoder.Reads (toJson ⟨ns, ls⟩) ⟨ns, ls'⟩ := by
  have hns : (Decoder.list Node.decoder).Reads (.list (ns.map _)) ns :=
    .list_map fun n hn => Node.reads (hnodes n hn)
  have hls : (Decoder.list linkDecoder).Reads (.list (ls.map linkToJson)) ls' :=
    .list (List.forall₂_map_left_iff.2 hlinks)
  have hrecord := hns.record "struct DeviceDescription" ⟨"nodes", _, none⟩
    ⟨"links", _, some none⟩ (by decide) hls.orNull
  exact hrecord.map _

/-- A description is read from its JSON form just if all nodes in it are named. -/
theorem inverts : decoder.Inverts toJson fun D => (∀ n ∈ D.nodes, n.register ≠ "") ∧
    ∀ l ∈ D.links, l.source.register ≠ "" ∧ l.target.register ≠ "" := by
  have hlinks := inverts_link.list.orNull fun _ => Json.noConfusion
  have hrecord := Node.inverts.list.record "struct DeviceDescription" ⟨"nodes", _, none⟩
    ⟨"links", _, some none⟩ (by decide) hlinks
  have h := hrecord.map (fun r => ⟨r.1, r.2.getD []⟩)
    (fun D : Description => (D.nodes, some D.links)) fun _ => rfl
  intro D E
  refine (h D E).trans ?_
  simp

/-- A description of nodes and links that fit describes a device with just these. -/
theorem exists_device {D : Description} (h : Device.Fitting D.nodes D.links) :
    ∃ e, D.device = .ok e ∧ e.nodes = D.nodes ∧ e.connections = D.links :=
  ⟨Device.ofFitting D.nodes D.links h, dif_pos h, Device.nodes_ofFitting ..,
    Device.connections_ofFitting ..⟩

end Description

/-! ## Devices -/

/-- The connection with another weight. -/
def Connection.reweigh (weigh : Binary64 → Binary64) (c : Connection) : Connection :=
  ⟨c.source, c.target, weigh c.weight⟩

namespace Device

variable {d : Device} {weigh : Binary64 → Binary64}

/-- The nodes and connections of a device make a device as they are. -/
theorem fitting (d : Device) : Fitting d.nodes d.connections :=
  ⟨d.nodes_nodup, fun _ => fits_of_mem, d.ends_nodup⟩

/-- They still do if the connections get other finite weights. -/
theorem fitting_reweigh (d : Device)
    (hfinite : ∀ c ∈ d.connections, (weigh c.weight).isFinite = true) :
    Fitting d.nodes (d.connections.map (.reweigh weigh)) := by
  refine ⟨d.nodes_nodup, List.forall_mem_map.2 fun c hc => ?_, ?_⟩
  · have hfits := fits_of_mem hc
    exact ⟨hfits.source_mem, hfits.target_mem, hfits.ne, hfinite c hc⟩
  · rw [List.map_map]
    exact d.ends_nodup

/-- If all nodes are named, so are the ends of all connections. -/
theorem named_ends (hnamed : ∀ n ∈ d.nodes, n.register ≠ "") :
    ∀ c ∈ d.connections, c.source.register ≠ "" ∧ c.target.register ≠ "" := fun _ hc =>
  ⟨hnamed _ (fits_of_mem hc).source_mem, hnamed _ (fits_of_mem hc).target_mem⟩

/-- The connections of a device are read from their texts if all nodes are named, with the weights
that are read. -/
theorem reads_connections (hnamed : ∀ n ∈ d.nodes, n.register ≠ "")
    (hweights : ∀ c ∈ d.connections,
      Decoder.double.Reads (.number (.double c.weight)) (weigh c.weight)) :
    List.Forall₂ (fun l l' => Description.linkDecoder.Reads (Description.linkToJson l) l')
      d.connections (d.connections.map (.reweigh weigh)) := by
  refine List.forall₂_map_right_iff.2 (List.forall₂_same.2 fun c hc => ?_)
  obtain ⟨hsource, htarget⟩ := named_ends hnamed c hc
  exact Description.reads_link hsource htarget (hweights c hc)

/-- The description of a device is read from its texts if all nodes are named, with the weights that
are read. -/
theorem reads_describe (hnamed : ∀ n ∈ d.nodes, n.register ≠ "") (hweights : ∀ c ∈ d.connections,
      Decoder.double.Reads (.number (.double c.weight)) (weigh c.weight)) :
    Description.decoder.Reads d.toJson ⟨d.nodes, d.connections.map (.reweigh weigh)⟩ :=
  Description.reads hnamed (reads_connections hnamed hweights)

/-- The description of a device is read from its JSON form just if all nodes are named. -/
theorem fromValue_toJson_iff {D : Description} :
    Description.decoder.fromValue d.toJson = .ok D ↔
      (∀ n ∈ d.nodes, n.register ≠ "") ∧ d.describe = D :=
  (Description.inverts d.describe D).trans (and_congr_left' (and_iff_left_of_imp named_ends))

end Device

end CouplingMap
