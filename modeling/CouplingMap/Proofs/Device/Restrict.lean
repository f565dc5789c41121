import CouplingMap.Proofs.Device.Equality

/-!
# Parts of devices

A part is made from a list of nodes. The list is checked against the device first, then its nodes
are added one by one, and then the connections between them.

* `Device.FirstMissing`, `Device.FirstRepeated`: the two things that can be wrong with the list.
* `Device.restrict_cases`: what comes of a list.
* `Device.restrict_exact`: which lists have a part, what it holds, and that a part of a part is a
  part of the device.
-/

namespace CouplingMap.Device

variable {d part : Device} {ns ms : List Node} {n : Node}

/-! ## Lists that have no part -/

/-- The first node of a list that the device does not have. -/
def FirstMissing (d : Device) (ns : List Node) (n : Node) : Prop :=
  ∃ before after, ns = before ++ n :: after ∧ (∀ m ∈ before, m ∈ d.nodes) ∧ n ∉ d.nodes

/-- The first node of a list that stands in it before. -/
def FirstRepeated (ns : List Node) (n : Node) : Prop :=
  ∃ before after, ns = before ++ n :: after ∧ before.Nodup ∧ n ∈ before

/-- A list with nodes that the device does not have has a first one. -/
theorem exists_firstMissing (h : ¬ ∀ n ∈ ns, n ∈ d.nodes) : ∃ n, d.FirstMissing ns n := by
  have hsome : ns.find? (fun n => n ∉ d.nodes) ≠ none := by simpa using h
  obtain ⟨n, hn⟩ := Option.ne_none_iff_exists'.1 hsome
  obtain ⟨hn, before, after, hsplit, hbefore⟩ := List.find?_eq_some_iff_append.1 hn
  exact ⟨n, before, after, hsplit, by simpa using hbefore, of_decide_eq_true hn⟩

/-- A list that repeats itself has a first repetition. -/
theorem exists_firstRepeated (h : ¬ ns.Nodup) : ∃ n, FirstRepeated ns n := by
  induction ns using List.reverseRecOn with
  | nil => exact absurd .nil h
  | append_singleton ns n ih =>
    by_cases hns : ns.Nodup
    · refine ⟨n, ns, [], rfl, hns, by_contra fun hn => h ?_⟩
      exact List.nodup_append.2 ⟨hns, List.nodup_singleton n, by grind⟩
    · obtain ⟨m, before, after, rfl, hm⟩ := ih hns
      exact ⟨m, before, after ++ [n], by simp, hm⟩

/-- The first missing node is reported. -/
theorem FirstMissing.restrict (h : d.FirstMissing ns n) :
    d.restrict ns = .error (.nodeNotFound n) := by
  obtain ⟨before, after, rfl, hbefore, hn⟩ := h
  have hfind : (before ++ n :: after).find? (fun n => n ∉ d.nodes) = some n :=
    List.find?_eq_some_iff_append.2 ⟨decide_eq_true hn, before, after, rfl, by simpa using hbefore⟩
  simp only [Device.restrict, hfind]

/-- Nodes are added up to the first that is there already. -/
theorem addNodes_eq_error {before after : List Node} (hnew : (d.nodes ++ before).Nodup)
    (hn : n ∈ d.nodes ++ before) :
    d.addNodes (before ++ n :: after) = .error (.duplicateNode n) := by
  induction before generalizing d with
  | nil =>
    have hadd : d.addNode n = .error (.duplicateNode n) :=
      dif_neg (Bool.not_eq_false _ ▸ contains_iff.2 (by simpa using hn))
    rw [List.nil_append, addNodes, List.foldlM_cons, hadd]
    rfl
  | cons m before ih =>
    have hm : d.contains m = false :=
      contains_eq_false.2 fun h => (List.nodup_append.1 hnew).2.2 m h m List.mem_cons_self rfl
    have hnodes : (d.withNode m hm).nodes ++ before = d.nodes ++ m :: before := by simp
    have hadd : d.addNode m = .ok (d.withNode m hm) := dif_pos hm
    rw [List.cons_append, addNodes, List.foldlM_cons, hadd]
    exact ih (hnodes ▸ hnew) (hnodes ▸ hn)

/-- The first repeated node is reported, if no node is missing. -/
theorem FirstRepeated.restrict (h : FirstRepeated ns n) (hmem : ∀ m ∈ ns, m ∈ d.nodes) :
    d.restrict ns = .error (.duplicateNode n) := by
  have hfind : ns.find? (fun n => n ∉ d.nodes) = none := by simpa using hmem
  obtain ⟨before, after, rfl, hbefore, hn⟩ := h
  have hnodes : ofNodes (before ++ n :: after) = .error (.duplicateNode n) :=
    addNodes_eq_error (d := empty) hbefore hn
  simp only [Device.restrict, hfind, ofParts_eq, hnodes]
  rfl

/-- A list lacks a node of the device, or repeats one, or has a part. -/
theorem restrict_cases (d : Device) (ns : List Node) :
    (∃ n, d.FirstMissing ns n ∧ d.restrict ns = .error (.nodeNotFound n)) ∨
    (∀ m ∈ ns, m ∈ d.nodes) ∧
      ((∃ n, FirstRepeated ns n ∧ d.restrict ns = .error (.duplicateNode n)) ∨
        ns.Nodup ∧ ∃ part, d.restrict ns = .ok part ∧ part.nodes = ns ∧
          part.connections = d.connections.filter fun c => c.source ∈ ns ∧ c.target ∈ ns) := by
  by_cases hmem : ∀ m ∈ ns, m ∈ d.nodes
  · refine .inr ⟨hmem, ?_⟩
    by_cases hnodup : ns.Nodup
    · exact .inr ⟨hnodup, restrict_eq_ok hmem hnodup⟩
    · obtain ⟨n, hn⟩ := exists_firstRepeated hnodup
      exact .inl ⟨n, hn, hn.restrict hmem⟩
  · obtain ⟨n, hn⟩ := exists_firstMissing hmem
    exact .inl ⟨n, hn, hn.restrict⟩

/-! ## Parts -/

/-- A part has the nodes of the list and the connections between them, in the order of the
device. -/
theorem lists_of_restrict (h : d.restrict ns = .ok part) :
    (∀ m ∈ ns, m ∈ d.nodes) ∧ ns.Nodup ∧ part.nodes = ns ∧
      part.connections = d.connections.filter fun c => c.source ∈ ns ∧ c.target ∈ ns := by
  rcases d.restrict_cases ns with ⟨n, -, he⟩ | ⟨hmem, ⟨n, -, he⟩ | ⟨hnodup, part', he, hlists⟩⟩
  · rw [h] at he
    contradiction
  · rw [h] at he
    contradiction
  · obtain rfl := Except.ok.inj (h.symm.trans he)
    exact ⟨hmem, hnodup, hlists⟩

/-- A part of a part is the part of the device on the same nodes. -/
theorem restrict_restrict (h : d.restrict ns = .ok part) (hnodup : ms.Nodup)
    (hsub : ∀ m ∈ ms, m ∈ ns) : ∃ inner direct, part.restrict ms = .ok inner ∧
      d.restrict ms = .ok direct ∧ Alike inner direct := by
  obtain ⟨hmem, -, hnodes, hconnections⟩ := lists_of_restrict h
  obtain ⟨inner, hinner, hinnerNodes, hinnerConnections⟩ :=
    restrict_eq_ok (d := part) (fun m hm => hnodes ▸ hsub m hm) hnodup
  obtain ⟨direct, hdirect, hdirectNodes, hdirectConnections⟩ :=
    restrict_eq_ok (fun m hm => hmem m (hsub m hm)) hnodup
  refine ⟨inner, direct, hinner, hdirect, hinnerNodes.trans hdirectNodes.symm, ?_⟩
  rw [hinnerConnections, hdirectConnections, hconnections, List.filter_filter]
  refine List.filter_congr fun c _ => ?_
  rw [← Bool.decide_and, decide_eq_decide]
  exact and_iff_left_of_imp fun hc => ⟨hsub _ hc.1, hsub _ hc.2⟩

/-- The part on all nodes is like the device. -/
theorem exists_restrict_nodes (d : Device) : ∃ whole, d.restrict d.nodes = .ok whole ∧
    Alike whole d := by
  obtain ⟨whole, hwhole, hnodes, hconnections⟩ := restrict_eq_ok (fun n hn => hn) d.nodes_nodup
  refine ⟨whole, hwhole, hnodes, hconnections.trans (List.filter_eq_self.2 fun c hc => ?_)⟩
  exact decide_eq_true ⟨(fits_of_mem hc).source_mem, (fits_of_mem hc).target_mem⟩

/-- A list of nodes has no part just if it has a node that the device lacks, the first of which is
reported, or else repeats a node, the first of which is reported. The part has the nodes of the list
and those connections of the device that run between them, in their order and with their weights.
A part on some nodes of a part holds the same as the part of the device on them, and the part on
all nodes is equal to the device. -/
theorem restrict_exact (d : Device) :
    (∀ ns n, d.restrict ns = .error (.nodeNotFound n) ↔ d.FirstMissing ns n) ∧
    (∀ ns n, d.restrict ns = .error (.duplicateNode n) ↔
      (∀ m ∈ ns, m ∈ d.nodes) ∧ FirstRepeated ns n) ∧
    (∀ ns, (∃ part, d.restrict ns = .ok part) ↔ (∀ m ∈ ns, m ∈ d.nodes) ∧ ns.Nodup) ∧
    (∀ ns part, d.restrict ns = .ok part → part.nodes = ns ∧
      part.connections = d.connections.filter fun c => c.source ∈ ns ∧ c.target ∈ ns) ∧
    (∀ ns part ms, d.restrict ns = .ok part → ms.Nodup → (∀ m ∈ ms, m ∈ ns) →
      ∃ inner direct, part.restrict ms = .ok inner ∧ d.restrict ms = .ok direct ∧
        inner.nodes = direct.nodes ∧ inner.connections = direct.connections) ∧
    ∃ whole, d.restrict d.nodes = .ok whole ∧ (whole == d) = true := by
  refine ⟨fun ns n => ⟨fun h => ?_, fun h => h.restrict⟩,
    fun ns n => ⟨fun h => ?_, fun h => h.2.restrict h.1⟩, fun ns => ⟨?_, fun h => ?_⟩,
    fun ns part h => ?_, fun ns part ms h hnodup hsub => ?_, ?_⟩
  · rcases d.restrict_cases ns with ⟨m, hm, he⟩ | ⟨-, ⟨m, -, he⟩ | ⟨-, part, he, -⟩⟩ <;>
      rw [h] at he
    · cases he
      exact hm
    · cases he
    · cases he
  · rcases d.restrict_cases ns with ⟨m, -, he⟩ | ⟨hmem, ⟨m, hm, he⟩ | ⟨-, part, he, -⟩⟩ <;>
      rw [h] at he
    · cases he
    · cases he
      exact ⟨hmem, hm⟩
    · cases he
  · rintro ⟨part, h⟩
    exact ⟨(lists_of_restrict h).1, (lists_of_restrict h).2.1⟩
  · obtain ⟨part, hpart, -⟩ := restrict_eq_ok h.1 h.2
    exact ⟨part, hpart⟩
  · exact (lists_of_restrict h).2.2
  · obtain ⟨inner, direct, hinner, hdirect, halike⟩ := restrict_restrict h hnodup hsub
    exact ⟨inner, direct, hinner, hdirect, halike.nodes, halike.connections⟩
  · obtain ⟨whole, hwhole, halike⟩ := d.exists_restrict_nodes
    refine ⟨whole, hwhole, beq_iff_equals.2 ?_⟩
    rw [halike.network]
    exact Network.equals_equivalence.refl _

end CouplingMap.Device
