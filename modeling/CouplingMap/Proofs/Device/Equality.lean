import CouplingMap.Proofs.Device.Congruence
import CouplingMap.Proofs.Device.Merge
import CouplingMap.Proofs.Device.Part
import CouplingMap.Proofs.Node.Order

/-!
# Equality of devices

Devices are compared by their nodes and by their connections, which are sorted by their ends first.
No two connections of a device have the same ends, so the sorted lists match just if the networks of
the devices are equal.

* `Device.sortedEnds_eq`: devices in which the same pairs are connected list them in one order.
* `Device.beq_iff_equals`: devices are equal just if their networks are.
* `Device.sameOutcome_restrict`: parts of equal devices are equal.
* `Device.beq_exact`: equality is an equivalence that is told by weights, that does not depend on
  the order in which different pairs were connected, and that edits and parts keep.
-/

namespace CouplingMap

/-- Lists match just if their items do, one by one. -/
theorem isEqv_eq_true_iff {α : Type} {r : α → α → Bool} {xs ys : List α} :
    xs.isEqv ys r = true ↔ List.Forall₂ (fun x y => r x y = true) xs ys := by
  induction xs generalizing ys with
  | nil => cases ys <;> simp [List.isEqv]
  | cons x xs ih => cases ys <;> simp [List.isEqv, ih]

/-- Whatever is in one of two lists that match is matched in the other one. -/
theorem exists_of_forall₂ {α β : Type} {R : α → β → Prop} {xs : List α} {ys : List β}
    (h : List.Forall₂ R xs ys) : ∀ x ∈ xs, ∃ y ∈ ys, R x y := by
  induction h with
  | nil => simp
  | cons hxy _ ih =>
    refine List.forall_mem_cons.2 ⟨⟨_, List.mem_cons_self, hxy⟩, fun x hx => ?_⟩
    obtain ⟨y, hy, hxy⟩ := ih x hx
    exact ⟨y, List.mem_cons_of_mem _ hy, hxy⟩

namespace Device

variable {d e : Device} {c : Connection} {a b : Node} {ns : List Node} {p q : Node × Node}

/-! ## Sorted connections -/

/-- Three-way comparison of pairs of nodes. -/
def compareEnds (p q : Node × Node) : Ordering := (compare p.1 q.1).then (compare p.2 q.2)

instance : Std.TransCmp compareEnds :=
  inferInstanceAs (Std.TransCmp (compareLex (compareOn Prod.fst) (compareOn Prod.snd)))

theorem eq_of_compareEnds (h : compareEnds p q = .eq) : p = q := by
  obtain ⟨hfst, hsnd⟩ := Ordering.then_eq_eq.1 h
  exact Prod.ext (Node.eq_of_compare hfst) (Node.eq_of_compare hsnd)

theorem connectionNotAfter_eq (c e : Connection) :
    connectionNotAfter c e = (compareEnds c.ends e.ends).isLE := rfl

theorem mem_sortedConnections : c ∈ d.sortedConnections ↔ c ∈ d.connections :=
  (List.mergeSort_perm _ _).mem_iff

/-- The connections are sorted by their ends. -/
theorem pairwise_sortedEnds (d : Device) :
    (d.sortedConnections.map Connection.ends).Pairwise fun p q => (compareEnds p q).isLE := by
  have htrans (c e f : Connection) : connectionNotAfter c e → connectionNotAfter e f →
      connectionNotAfter c f := by
    simp only [connectionNotAfter_eq]
    exact Std.TransCmp.isLE_trans
  have htotal (c e : Connection) : connectionNotAfter c e || connectionNotAfter e c := by
    have hswap : compareEnds c.ends e.ends = (compareEnds e.ends c.ends).swap :=
      Std.OrientedCmp.eq_swap
    rw [connectionNotAfter_eq, connectionNotAfter_eq, hswap]
    cases compareEnds e.ends c.ends <;> rfl
  exact List.pairwise_map.2 (List.pairwise_mergeSort htrans htotal d.connections)

/-- Devices in which the same pairs are connected list them in the same order. -/
theorem sortedEnds_eq (h : ∀ p, p ∈ d.connections.map Connection.ends ↔
      p ∈ e.connections.map Connection.ends) :
    d.sortedConnections.map Connection.ends = e.sortedConnections.map Connection.ends := by
  have hperm (d : Device) : (d.sortedConnections.map Connection.ends).Perm
      (d.connections.map Connection.ends) := (List.mergeSort_perm _ _).map _
  refine List.Perm.eq_of_pairwise (fun p q _ _ hpq hqp => ?_) d.pairwise_sortedEnds
    e.pairwise_sortedEnds ?_
  · exact eq_of_compareEnds (Std.OrientedCmp.isLE_antisymm hpq hqp)
  · refine (hperm d).trans (List.Perm.trans ?_ (hperm e).symm)
    exact (List.perm_ext_iff_of_nodup d.ends_nodup e.ends_nodup).2 h

/-! ## Equality and networks -/

theorem beq_iff : (d == e) = true ↔ d.nodes = e.nodes ∧
    List.Forall₂ (fun c c' => sameConnection c c' = true) d.sortedConnections
      e.sortedConnections := by
  show (d.nodes == e.nodes && d.sortedConnections.isEqv e.sortedConnections sameConnection) = true ↔
    _
  rw [Bool.and_eq_true, beq_iff_eq, isEqv_eq_true_iff]

theorem sameConnection_iff {c c' : Connection} : sameConnection c c' = true ↔
    c.ends = c'.ends ∧ c.weight.sameNumber c'.weight = true := by
  simp [sameConnection, Connection.ends]

theorem sameConnection_symm {c c' : Connection} (h : sameConnection c c' = true) :
    sameConnection c' c = true := by
  obtain ⟨hends, hnumber⟩ := sameConnection_iff.1 h
  exact sameConnection_iff.2 ⟨hends.symm, Binary64.sameNumber_symm hnumber⟩

/-- A pair is connected just if it has a weight in the network. -/
theorem mem_ends_iff :
    p ∈ d.connections.map Connection.ends ↔ d.network.weight? p.1 p.2 ≠ none := by
  simp only [Option.ne_none_iff_exists', weight?_network, List.mem_map]
  constructor
  · rintro ⟨c, hc, rfl⟩
    exact ⟨c.weight, hc⟩
  · rintro ⟨w, hw⟩
    exact ⟨_, hw, rfl⟩

/-- A weight in one of two devices that match is the same number in the other one. -/
theorem exists_weight?_of_forall₂ {w : Binary64}
    (h : List.Forall₂ (fun c c' => sameConnection c c' = true) d.sortedConnections
      e.sortedConnections) (hw : d.network.weight? a b = some w) :
    ∃ w', e.network.weight? a b = some w' ∧ w.sameNumber w' = true := by
  rw [weight?_network, ← mem_sortedConnections] at hw
  obtain ⟨c', hc', hsame⟩ := exists_of_forall₂ h _ hw
  obtain ⟨hends, hnumber⟩ := sameConnection_iff.1 hsame
  obtain ⟨rfl, rfl⟩ := Prod.mk.inj hends
  exact ⟨c'.weight, weight?_network.2 (mem_sortedConnections.1 hc'), hnumber⟩

/-- Devices are equal just if their networks are. -/
theorem beq_iff_equals : (d == e) = true ↔ d.network.Equals e.network := by
  rw [beq_iff]
  constructor
  · rintro ⟨hnodes, hsame⟩ p
    refine ⟨hnodes, ?_⟩
    cases hw : d.network.weight? p.1 p.2 with
    | some w =>
      obtain ⟨w', hw', hnumber⟩ := exists_weight?_of_forall₂ hsame hw
      rw [hw']
      exact .some hnumber
    | none =>
      have hsame' := hsame.flip.imp fun c c' h => sameConnection_symm h
      cases hw' : e.network.weight? p.1 p.2 with
      | none => exact .none
      | some w' =>
        obtain ⟨w, hw'', -⟩ := exists_weight?_of_forall₂ hsame' hw'
        rw [hw] at hw''
        contradiction
  · intro h
    have hends : d.sortedConnections.map Connection.ends =
        e.sortedConnections.map Connection.ends :=
      sortedEnds_eq fun p => mem_ends_iff.trans ((not_congr (h p).eq_none_iff).trans
        mem_ends_iff.symm)
    rw [← List.forall₂_eq_eq_eq, List.forall₂_map_left_iff, List.forall₂_map_right_iff,
      List.forall₂_iff_zip] at hends
    refine ⟨h.nodes, List.forall₂_iff_zip.2 ⟨hends.1, fun {c c'} hzip => ?_⟩⟩
    obtain ⟨hc, hc'⟩ := List.of_mem_zip hzip
    have hpair := hends.2 hzip
    have hw : d.network.weight? c.ends.1 c.ends.2 = some c.weight :=
      weight?_network.2 (mem_sortedConnections.1 hc)
    have hw' : e.network.weight? c'.ends.1 c'.ends.2 = some c'.weight :=
      weight?_network.2 (mem_sortedConnections.1 hc')
    have hnumber := (h c.ends).weight
    rw [hw, hpair, hw'] at hnumber
    cases hnumber with
    | some hnumber => exact sameConnection_iff.2 ⟨hpair, hnumber⟩

/-! ## Parts -/

/-- Lists with a repeated node make no device, whatever the connections are. -/
theorem ofParts_of_repeated (h : ¬ ns.Nodup) : ∃ x, ∀ cs, ofParts ns cs = .error x := by
  cases hnodes : ofNodes ns with
  | error x => exact ⟨x, fun cs => by rw [ofParts_eq, hnodes]; rfl⟩
  | ok d =>
    have hns : d.nodes = ns := nodes_of_addNodes hnodes
    exact absurd (hns ▸ d.nodes_nodup) h

/-- The weights in a part are those between its nodes. -/
theorem weight?_part {part : Device} (hpart : part.connections =
      d.connections.filter fun c => c.source ∈ ns ∧ c.target ∈ ns) (a b : Node) :
    part.network.weight? a b = if a ∈ ns ∧ b ∈ ns then d.network.weight? a b else none := by
  refine Option.ext fun w => ?_
  rw [weight?_network, hpart, List.mem_filter, decide_eq_true_iff]
  split
  · rw [weight?_network]
    exact and_iff_left ‹_›
  · exact iff_of_false (fun h => absurd h.2 ‹_›) (Option.some_ne_none w).symm

/-- Equal devices have equal parts, or lack the same node. -/
theorem sameOutcome_restrict (h : d.network.Equals e.network) (ns : List Node) :
    SameOutcome (fun d e => d.network.Equals e.network) (d.restrict ns) (e.restrict ns) := by
  have hnodes : d.nodes = e.nodes := h.nodes
  by_cases hmem : ∀ n ∈ ns, n ∈ d.nodes
  · by_cases hnodup : ns.Nodup
    · obtain ⟨part, hd, hns, hcs⟩ := restrict_eq_ok hmem hnodup
      obtain ⟨part', he, hns', hcs'⟩ := restrict_eq_ok (hnodes ▸ hmem) hnodup
      rw [hd, he]
      refine .ok fun p => ⟨hns.trans hns'.symm, ?_⟩
      rw [weight?_part hcs, weight?_part hcs']
      split
      · exact (h p).weight
      · exact .none
    · obtain ⟨x, hx⟩ := ofParts_of_repeated hnodup
      have hall : ns.find? (fun n => n ∉ e.nodes) = none := by simpa [hnodes] using hmem
      simp only [restrict, hnodes, hall, hx]
      exact .error x
  · have hsome : ns.find? (fun n => n ∉ e.nodes) ≠ none := by simpa [hnodes] using hmem
    obtain ⟨n, hn⟩ := Option.ne_none_iff_exists'.1 hsome
    simp only [restrict, hnodes, hn]
    exact .error _

/-! ## Equality is told by answers and kept by edits -/

/-- Devices are equal just if they have the same nodes in the same order and give the same answer, a
number or an error, to every question for a weight. This is an equivalence. From equal devices,
edits of connections lead to equal devices in any order that keeps the order of the edits of each
pair. An edit of equal devices, and a part on some nodes, fails for the same reason or makes equal
devices. -/
theorem beq_exact :
    (∀ d e : Device, (d == e) = true ↔ d.nodes = e.nodes ∧
      ∀ a b, SameOutcome (fun v w => v.sameNumber w = true) (d.weight a b) (e.weight a b)) ∧
    (Equivalence fun d e : Device => (d == e) = true) ∧
    (∀ (d e : Device) (es es' : List Edit), (d == e) = true →
      (∀ x ∈ es, ∃ p, x.pair? = some p) → (∀ x ∈ es', ∃ p, x.pair? = some p) →
      (∀ p, es.filter (fun x => x.pair? = some p) = es'.filter fun x => x.pair? = some p) →
      ((Edit.runAll edit d es).1 == (Edit.runAll edit e es').1) = true) ∧
    (∀ (d e : Device) (x : Edit), (d == e) = true →
      SameOutcome (fun d e => (d == e) = true) (d.edit x) (e.edit x)) ∧
    ∀ (d e : Device) (ns : List Node), (d == e) = true →
      SameOutcome (fun d e => (d == e) = true) (d.restrict ns) (e.restrict ns) := by
  simp only [beq_iff_equals]
  refine ⟨fun d e => ?_, ?_, fun d e es es' h hes hes' hsame => ?_, fun d e x h => ?_,
    fun d e ns h => sameOutcome_restrict h ns⟩
  · simp only [weight_eq]
    exact Network.equals_iff
  · exact Network.equals_equivalence.comap network
  · have hrun := h.run hes hes' hsame
    rwa [runAll_network, runAll_network] at hrun
  · have hedit := h.edit x
    rwa [← map_edit, ← map_edit, sameOutcome_map] at hedit

end Device

end CouplingMap
