import CouplingMap.Proofs.Device.Description

/-!
# Texts of devices are read back

* `Device.ofText_toText`: a device with named nodes is read back from either of its texts, provided
  that its weights are.
* `Device.ofText_toText_near`: in any case it is read back with its nodes, and its connections with
  weights that are near. Weights are the same if the digits of their texts are not rounded.
* `Device.not_ofText_toText_driftingDevice`: not all weights are read back.
-/

namespace CouplingMap.Device

open Json

variable {d : Device}

/-- A text from which a description of what fits is read describes a device of this. -/
theorem exists_ofText {D : Description} (h : Description.decoder.Reads d.toJson D)
    (hfitting : Fitting D.nodes D.links) (lines : Bool) :
    ∃ e, ofText (d.toText lines) = .ok e ∧ e.nodes = D.nodes ∧ e.connections = D.links := by
  obtain ⟨e, he, hnodes, hconnections⟩ := Description.exists_device hfitting
  refine ⟨e, bind_eq_ok.2 ⟨D, ?_, ?_⟩, hnodes, hconnections⟩
  · rw [toText, h.ofText_write lines]
    rfl
  · rw [he]
    rfl

/-- A device with named nodes is read back from either of its texts, with the same nodes and
connections in the same order, provided that the text of every weight is read as the weight. -/
theorem ofText_toText (d : Device) (lines : Bool) (hnamed : ∀ n ∈ d.nodes, n.register ≠ "")
    (hweights : ∀ c ∈ d.connections, Decoder.ReadsBack c.weight) :
    ∃ e, ofText (d.toText lines) = .ok e ∧ e.nodes = d.nodes ∧ e.connections = d.connections := by
  have hread : Description.decoder.Reads d.toJson ⟨d.nodes, d.connections.map (.reweigh id)⟩ :=
    reads_describe hnamed fun c hc =>
      Decoder.reads_double (fits_of_mem hc).finite (hweights c hc)
  have hsame : d.connections.map (.reweigh id) = d.connections := List.map_id _
  rw [hsame] at hread
  exact exists_ofText hread d.fitting lines

/-- A node whose register has a quote, a backslash, control characters and a letter beyond ASCII. -/
def oddNode : Node := ⟨"a\"\\\n\x01\x7fé", .two 4294967295 0⟩

/-- A device with such a node, and the weights `-0.1` and `1e15`. -/
def oddDevice : Device :=
  ofFitting [oddNode, .ofIndex 7] [⟨oddNode, .ofIndex 7, ⟨0xBFB999999999999A⟩⟩,
    ⟨.ofIndex 7, oddNode, ⟨0x430C6BF526340000⟩⟩] (by decide)

/-- The odd register and the weight are read back from both layouts. -/
theorem ofText_toText_oddDevice :
    (∃ e, ofText (oddDevice.toText false) = .ok e ∧ e.nodes = oddDevice.nodes ∧
      e.connections = oddDevice.connections) ∧
    ∃ e, ofText (oddDevice.toText true) = .ok e ∧ e.nodes = oddDevice.nodes ∧
      e.connections = oddDevice.connections :=
  ⟨ofText_toText oddDevice false (by decide) (by decide +kernel),
    ofText_toText oddDevice true (by decide) (by decide +kernel)⟩

/-! ## Weights -/

/-- What becomes of a connection in a text. Its weight may be three doubles off, but is the same if
the digits of its text are not rounded: as one number they have at most 53 bits before their last
zeros, and their power of ten is between `10 ^ (-22)` and `10 ^ 22`. -/
structure Drifts (c c' : Connection) : Prop where
  source : c'.source = c.source
  target : c'.target = c.target
  near : c.weight.Near 3 c'.weight
  precise : (Numeral.ofDouble c.weight).Precise → c'.weight = c.weight

/-- A device with named nodes is read back from either of its texts, with the same nodes in the same
order, and the connections in the same order except that their weights may drift. -/
theorem ofText_toText_near (d : Device) (lines : Bool) (hnamed : ∀ n ∈ d.nodes, n.register ≠ "") :
    ∃ e, ofText (d.toText lines) = .ok e ∧ e.nodes = d.nodes ∧
      List.Forall₂ Drifts d.connections e.connections := by
  choose! weigh hreads hfinite hnear hprecise using fun (x : Binary64) (h : x.isFinite = true) =>
    Decoder.exists_reads_double h
  have hread := reads_describe hnamed fun c hc => hreads c.weight (fits_of_mem hc).finite
  have hfitting := d.fitting_reweigh fun c hc => hfinite c.weight (fits_of_mem hc).finite
  obtain ⟨e, he, hnodes, hconnections⟩ := exists_ofText hread hfitting lines
  refine ⟨e, he, hnodes, ?_⟩
  rw [hconnections]
  refine List.forall₂_map_right_iff.2 (List.forall₂_same.2 fun c hc => ?_)
  have hc := (fits_of_mem hc).finite
  exact ⟨rfl, rfl, hnear c.weight hc, hprecise c.weight hc⟩

/-- A device with the weight `2 ^ 53 - 1`, whose text has a digit after the point. -/
def driftingDevice : Device :=
  ofFitting [.ofIndex 0, .ofIndex 1] [⟨.ofIndex 0, .ofIndex 1, ⟨0x433FFFFFFFFFFFFF⟩⟩] (by decide)

/-- The weight `2 ^ 53 - 1` is read as one that is near. -/
theorem ofText_toText_near_driftingDevice :
    ∃ e, ofText (driftingDevice.toText false) = .ok e ∧ e.nodes = driftingDevice.nodes ∧
      List.Forall₂ Drifts driftingDevice.connections e.connections :=
  ofText_toText_near driftingDevice false (by decide)

/-- The weight `2 ^ 53 - 1` is not read back: its digits `90071992547409910` are rounded to a
multiple of sixteen before they are divided by ten. -/
theorem not_ofText_toText_driftingDevice : ¬ ∃ e, ofText (driftingDevice.toText false) = .ok e ∧
    e.connections = driftingDevice.connections := by
  have hread : (ofText (driftingDevice.toText false)).toOption.map connections =
      some [⟨.ofIndex 0, .ofIndex 1, ⟨0x433FFFFFFFFFFFFE⟩⟩] := by
    decide +kernel
  rintro ⟨e, he, hconnections⟩
  rw [he] at hread
  have hsame := hconnections.symm.trans (Option.some.inj hread)
  revert hsame
  decide

end CouplingMap.Device
