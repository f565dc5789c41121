import CouplingMap.Proofs.Device.RoundTrip
import CouplingMap.Proofs.Json.Truncation

/-!
# Texts of devices that are cut

The text of a device is an object, so it is complete only with its last character. Before that it is
refused as a text that ends too early. The nodes in front of the cut obey the rule for nodes, and the
rules for a device are for complete descriptions.

* `Node.stops`, `Description.stops`: nodes and descriptions that are cut.
* `Device.ofText_toText_take`: either text of a device with named nodes, cut after any number of its
  characters.
-/

namespace CouplingMap

open Json

/-- A node that is cut is refused as such, whatever its register. -/
theorem Node.stops (n : Node) : decoder.Stops n.toJson := by
  have hindex : (Decoder.list .uint32).Reads (.list (n.index.map _)) n.index :=
    .list_map fun i _ => Decoder.reads_uint32 i
  have hitems : (Decoder.list .uint32).Stops (.list (n.index.map _)) :=
    .list_map (fun i _ => Decoder.reads_uint32 i) fun i _ => Decoder.drains_uint32 i
  have hparts := Decoder.Stops.pair "tuple struct RawNode"
    (Decoder.twoElements "tuple struct RawNode") (Decoder.reads_string n.register) hindex
    (Decoder.stops_string n.register).drains hitems.drains
  exact hparts.check _

namespace Description

/-- A link between named nodes that is cut. -/
theorem stops_link {l : Connection} (hsource : l.source.register ≠ "")
    (htarget : l.target.register ≠ "") (hfinite : l.weight.isFinite = true) :
    linkDecoder.Stops (linkToJson l) := by
  obtain ⟨w, hweight, -⟩ := Decoder.exists_reads_double hfinite
  have hsource := Node.reads hsource
  have htarget := Node.reads htarget
  have hends := hsource.pair pairTitle pairTitle htarget
  have hpair := Decoder.Stops.pair pairTitle pairTitle hsource htarget (Node.stops _).drains
    (Node.stops _).drains
  have hrecord := Decoder.Stops.record "struct LinkEntry" ⟨"link", _, none⟩ ⟨"weight", _, none⟩
    (by decide) hends hweight hpair.drains (Decoder.drains_double hfinite)
  exact hrecord.map _

/-- A description that is cut. All its nodes are named, and its links are between such. -/
theorem stops {ns : List Node} {ls ls' : List Connection} (hnodes : ∀ n ∈ ns, n.register ≠ "")
    (hlinks : List.Forall₂ (fun l l' => linkDecoder.Reads (linkToJson l) l') ls ls')
    (hstops : ∀ l ∈ ls, linkDecoder.Stops (linkToJson l)) : decoder.Stops (toJson ⟨ns, ls⟩) := by
  have hns : (Decoder.list Node.decoder).Reads (.list (ns.map _)) ns :=
    .list_map fun n hn => Node.reads (hnodes n hn)
  have hns' : (Decoder.list Node.decoder).Stops (.list (ns.map _)) :=
    .list_map (fun n hn => Node.reads (hnodes n hn)) fun n _ => n.stops.drains
  have hls : (Decoder.list linkDecoder).Reads (.list (ls.map linkToJson)) ls' :=
    .list (List.forall₂_map_left_iff.2 hlinks)
  have hls' : (Decoder.list linkDecoder).Stops (.list (ls.map linkToJson)) :=
    .list (List.forall₂_map_left_iff.2 hlinks)
      (List.forall_mem_map.2 fun l hl => (hstops l hl).drains)
  have hrecord := Decoder.Stops.record "struct DeviceDescription" ⟨"nodes", _, none⟩
    ⟨"links", _, some none⟩ (by decide) hns hls.orNull hns'.drains hls'.orNull.drains
  exact hrecord.map _

end Description

namespace Device

variable {d : Device}

/-- The texts of all weights are read as doubles. -/
theorem exists_reads_weights (d : Device) : ∃ weigh : Binary64 → Binary64, ∀ c ∈ d.connections,
    Decoder.double.Reads (.number (.double c.weight)) (weigh c.weight) := by
  choose! weigh hreads using fun (x : Binary64) (h : x.isFinite = true) =>
    Decoder.exists_reads_double h
  exact ⟨weigh, fun c hc => (hreads c.weight (fits_of_mem hc).finite).1⟩

/-- The description of a device that is cut. -/
theorem stops_describe (hnamed : ∀ n ∈ d.nodes, n.register ≠ "") :
    Description.decoder.Stops d.toJson := by
  obtain ⟨weigh, hweights⟩ := d.exists_reads_weights
  refine Description.stops hnamed (reads_connections hnamed hweights) fun c hc => ?_
  obtain ⟨hsource, htarget⟩ := named_ends hnamed c hc
  exact Description.stops_link hsource htarget (fits_of_mem hc).finite

/-- A complete text is not refused as a text. -/
theorem ofText_toText_ne_text (hnamed : ∀ n ∈ d.nodes, n.register ≠ "") (lines : Bool)
    (x : ReadError) : ofText (d.toText lines) ≠ .error (.text x) := by
  obtain ⟨weigh, hweights⟩ := d.exists_reads_weights
  have hread : Description.decoder.ofText (d.toText lines) = .ok _ :=
    (reads_describe hnamed hweights).ofText_write lines
  rw [ofText, hread]
  show Except.mapError DescriptionError.device _ ≠ _
  cases Description.device _ <;> exact nofun

/-- Either text of a device with named nodes, cut after some of its characters, is refused as one
that ends too early just if any characters are missing. -/
theorem ofText_toText_take (d : Device) (lines : Bool) (hnamed : ∀ n ∈ d.nodes, n.register ≠ "")
    (k : Nat) : ofText (String.ofList ((d.toText lines).toList.take k)) = .error (.text .ended) ↔
      k < (d.toText lines).toList.length := by
  constructor
  · intro hended
    by_contra hk
    rw [List.take_of_length_le (Nat.not_lt.1 hk), String.ofList_toList] at hended
    exact ofText_toText_ne_text hnamed lines .ended hended
  · intro hk
    have hread : Description.decoder.ofText (String.ofList ((d.toText lines).toList.take k)) =
        .error .ended := (stops_describe hnamed).ofText hk
    rw [ofText, hread]
    rfl

/-- The odd register is cut inside of an escape, and the weight `-0.1` before its point. -/
theorem ofText_toText_take_oddDevice :
    ofText (String.ofList ((oddDevice.toText false).toList.take 21)) = .error (.text .ended) ∧
      ofText (String.ofList ((oddDevice.toText true).toList.take 406)) = .error (.text .ended) := by
  have hnamed : ∀ n ∈ oddDevice.nodes, n.register ≠ "" := by decide
  refine ⟨(ofText_toText_take oddDevice false hnamed 21).2 ?_,
    (ofText_toText_take oddDevice true hnamed 406).2 ?_⟩
  · rw [toText, toList_write]
    decide +kernel
  · rw [toText, toList_write]
    decide +kernel

end Device

end CouplingMap
