import CouplingMap.Proofs.Device.Prune
import CouplingMap.Proofs.Device.Reload

/-!
# Pruning leaves a part of the device

Pruning frees the seats and slots of one node after another; a part is made at once, in fresh seats
and slots. Both keep the nodes and connections that stay in the order of the device.

* `Device.restrict_eq_ok`: the part on different nodes of the device.
* `Device.Trimmed.connections_eq`, `Device.Trimmed.exists_part`: the connections that stay when nodes
  go one after another, and the part that these and the nodes left make.
* `Device.prune_eq_restrict`: pruning leaves the part on the nodes that it does not take away.
-/

namespace CouplingMap.Device

variable {d e : Device} {ns : List Node}

/-! ## Parts -/

/-- The connections between some nodes make a device with these nodes. -/
theorem fitting_part (d : Device) (h : ns.Nodup) :
    Fitting ns (d.connections.filter fun c => c.source ∈ ns ∧ c.target ∈ ns) := by
  refine ⟨h, fun c hc => ?_, d.ends_nodup.sublist (List.filter_sublist.map _)⟩
  obtain ⟨hmem, hends⟩ := List.mem_filter.1 hc
  rw [decide_eq_true_iff] at hends
  exact { fits_of_mem hmem with source_mem := hends.1, target_mem := hends.2 }

/-- Different nodes of the device have a part. It has them in their order, and the connections
between them in the order of the device. -/
theorem restrict_eq_ok (hmem : ∀ n ∈ ns, n ∈ d.nodes) (hnodup : ns.Nodup) :
    ∃ part, d.restrict ns = .ok part ∧ part.nodes = ns ∧
      part.connections = d.connections.filter fun c => c.source ∈ ns ∧ c.target ∈ ns := by
  have hall : ns.find? (fun n => n ∉ d.nodes) = none := by simpa using hmem
  have hfit := d.fitting_part hnodup
  refine ⟨ofFitting ns _ hfit, ?_, nodes_ofFitting .., connections_ofFitting ..⟩
  unfold restrict
  simp only [hall, ← Bool.decide_and]
  exact dif_pos hfit

/-! ## One node after another -/

/-- The connections that stay are those that touch no node that goes. -/
theorem Trimmed.connections_eq (h : Trimmed d ns e) :
    e.connections = d.connections.filter fun c => c.source ∉ ns ∧ c.target ∉ ns := by
  induction h with
  | done d => simp
  | remove hn hr _ ih =>
    rw [ih, connections_of_removeNode hr, List.filter_filter]
    congr 1
    funext c
    rw [Bool.eq_iff_iff]
    simp only [Connection.touches, List.mem_cons, Bool.and_eq_true, Bool.not_eq_true',
      decide_eq_true_eq, decide_eq_false_iff_not]
    grind

/-- What is left when nodes go one after another is the part on the nodes that stay. -/
theorem Trimmed.exists_part (h : Trimmed d ns e) :
    ∃ part, d.restrict (d.nodes.filter fun n => n ∉ ns) = .ok part ∧ Alike part e := by
  obtain ⟨part, hpart, hnodes, hconnections⟩ :=
    restrict_eq_ok (fun n hn => List.mem_of_mem_filter hn)
      (d.nodes_nodup.filter fun n => decide (n ∉ ns))
  refine ⟨part, hpart, hnodes.trans h.nodes_eq.symm, hconnections.trans ?_⟩
  -- A connection of the device runs between nodes that stay just if neither of its ends goes.
  rw [h.connections_eq]
  refine List.filter_congr fun c hc => ?_
  have hfits := fits_of_mem hc
  simp [List.mem_filter, hfits.source_mem, hfits.target_mem]

/-- The nodes that pruning takes away are nodes of the device. The device left has the other nodes
and the connections that touch none of those taken, in the order of the device. It is the part of
the device on the nodes that stay: the nodes and connections are the same, and so are the texts. -/
theorem prune_eq_restrict (d : Device) (num : Nat) :
    (∀ n ∈ (d.prune num).1, n ∈ d.nodes) ∧
      (d.prune num).2.nodes = d.nodes.filter (fun n => n ∉ (d.prune num).1) ∧
      (d.prune num).2.connections = d.connections.filter
        (fun c => c.source ∉ (d.prune num).1 ∧ c.target ∉ (d.prune num).1) ∧
      ∃ part, d.restrict (d.nodes.filter fun n => n ∉ (d.prune num).1) = .ok part ∧
        part.nodes = (d.prune num).2.nodes ∧ part.connections = (d.prune num).2.connections ∧
        ∀ lines, part.toText lines = (d.prune num).2.toText lines := by
  obtain ⟨taken, hmem, ht⟩ : ∃ taken, (∀ n, n ∈ (d.prune num).1 ↔ n ∈ taken) ∧
      Trimmed d taken (d.prune num).2 :=
    ⟨_, fun n => Node.mem_sorted, trimmed_pruneFrom num d⟩
  have hnodes : (d.prune num).2.nodes = d.nodes.filter fun n => n ∉ (d.prune num).1 := by
    simp only [hmem]
    exact ht.nodes_eq
  have hconnections : (d.prune num).2.connections = d.connections.filter
      fun c => c.source ∉ (d.prune num).1 ∧ c.target ∉ (d.prune num).1 := by
    simp only [hmem]
    exact ht.connections_eq
  have hsub : ∀ n ∈ d.nodes.filter (fun n => n ∉ (d.prune num).1), n ∈ d.nodes :=
    fun n hn => List.mem_of_mem_filter hn
  obtain ⟨part, hpart, hpartNodes, hpartConnections⟩ :=
    restrict_eq_ok hsub (d.nodes_nodup.filter _)
  -- A connection of the device runs between nodes that stay just if neither of its ends goes.
  have hstay : part.connections = (d.prune num).2.connections := by
    rw [hpartConnections, hconnections]
    refine List.filter_congr fun c hc => ?_
    have hfits := fits_of_mem hc
    simp [List.mem_filter, hfits.source_mem, hfits.target_mem]
  have halike : Alike part (d.prune num).2 := ⟨hpartNodes.trans hnodes.symm, hstay⟩
  refine ⟨fun n hn => ht.mem n ((hmem n).1 hn), hnodes, hconnections, part, hpart, halike.nodes,
    halike.connections, fun lines => ?_⟩
  rw [toText, toText, halike.toJson]

end CouplingMap.Device
