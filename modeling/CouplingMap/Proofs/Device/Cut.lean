import CouplingMap.Device.Cut
import CouplingMap.Proofs.Device.Shape
import CouplingMap.Proofs.Graph.CutVertex
import CouplingMap.Proofs.Graph.Labels

/-!
# Articulation points

* `Device.mem_cutNodes`: the nodes at the cut vertices are the separators of the shape.
* `Device.articulationPoints_exact`: the articulation points are the nodes on all walks between two
  other nodes, and the nodes whose removal leaves more components.
* `Device.mapM_position`, `Device.mapM_position_eq_error`: the positions of the nodes of a part.
* `Device.articulationPointsOf_exact`: the same with respect to the nodes of a part.
-/

namespace CouplingMap.Device

open SimpleGraph

variable {d : Device} {n : Node} {ns : List Node}

/-- The nodes at the cut vertices are the separators of the shape. -/
theorem mem_cutNodes : n ∈ d.cutNodes d.table ↔ Separator d.shape n := by
  have hcut (i : Fin d.size) :
      i ∈ Graph.cutVertices (Graph.lookup d.table) ↔ Separator d.shape (d.nodeAt i) := by
    rw [Graph.mem_cutVertices (G := d.undirected.shape) fun u w => mem_lookup_table,
      separator_nodeAt]
  rw [cutNodes, Node.mem_sorted, List.mem_map]
  constructor
  · rintro ⟨i, hi, rfl⟩
    exact (hcut i).1 hi
  · intro h
    obtain ⟨a, ha⟩ := h.exists_adj
    obtain ⟨i, rfl⟩ := exists_nodeAt (mem_nodes_of_adj ha)
    exact ⟨i, (hcut i).2 h, rfl⟩

/-- No node is named twice. -/
theorem cutNodes_nodup (d : Device) (t : d.Table) : (d.cutNodes t).Nodup := by
  rw [cutNodes, (Node.sorted_perm _).nodup_iff]
  exact ((List.nodup_finRange _).filter _).map nodeAt_injective

/-- A separator lies on all walks between two other nodes. -/
theorem separator_iff_exists_mem : Separator d.shape n ↔
    ∃ u ∈ d.nodes, ∃ w ∈ d.nodes, u ≠ n ∧ w ≠ n ∧ u ≠ w ∧ d.shape.Reachable u w ∧
      ∀ q : d.shape.Walk u w, n ∈ q.support := by
  rw [← separatorOf_univ, separatorOf_iff_mem_support]
  constructor
  · rintro ⟨u, -, w, -, hu, hw, hne, hr, hall⟩
    exact ⟨u, mem_nodes_of_reachable hr hne, w, mem_nodes_of_reachable hr.symm hne.symm, hu, hw,
      hne, hr, hall⟩
  · rintro ⟨u, -, w, -, h⟩
    exact ⟨u, trivial, w, trivial, h⟩

/-- A separator can be removed, and then there are more components. -/
theorem separator_iff_componentCount_lt : Separator d.shape n ↔
    ∃ e, d.removeNode n = .ok e ∧ d.componentCount < e.componentCount := by
  constructor
  · intro h
    obtain ⟨a, ha⟩ := h.exists_adj
    obtain ⟨e, he, -⟩ := removeNode_eq_ok (mem_nodes_of_adj ha)
    exact ⟨e, he, (componentCount_lt_iff he).2 h⟩
  · rintro ⟨e, he, hlt⟩
    exact (componentCount_lt_iff he).1 hlt

/-- The articulation points are the nodes that lie on all walks between two other nodes, which are
joined. They are the nodes whose removal leaves more components. None is named twice. -/
theorem articulationPoints_exact (d : Device) :
    d.articulationPoints.Nodup ∧ ∀ n,
      (n ∈ d.articulationPoints ↔ ∃ u ∈ d.nodes, ∃ w ∈ d.nodes, u ≠ n ∧ w ≠ n ∧ u ≠ w ∧
        d.shape.Reachable u w ∧ ∀ q : d.shape.Walk u w, n ∈ q.support) ∧
      (n ∈ d.articulationPoints ↔
        ∃ e, d.removeNode n = .ok e ∧ d.componentCount < e.componentCount) := by
  refine ⟨cutNodes_nodup d d.table, fun n => ⟨?_, ?_⟩⟩
  · rw [articulationPoints, mem_cutNodes, separator_iff_exists_mem]
  · rw [articulationPoints, mem_cutNodes, separator_iff_componentCount_lt]

/-! ## With respect to a part -/

/-- Nodes of the device have positions. -/
theorem mapM_position (h : ∀ n ∈ ns, n ∈ d.nodes) :
    ∃ is, ns.mapM d.position = .ok is ∧ is.map d.nodeAt = ns := by
  induction ns with
  | nil => exact ⟨[], rfl, rfl⟩
  | cons n ns ih =>
    obtain ⟨i, rfl⟩ := exists_nodeAt (h n List.mem_cons_self)
    obtain ⟨is, his, rfl⟩ := ih fun m hm => h m (List.mem_cons_of_mem _ hm)
    refine ⟨i :: is, ?_, rfl⟩
    rw [List.mapM_cons, position_nodeAt, his]
    rfl

/-- The first node that is not on the device is reported. -/
theorem mapM_position_eq_error (h : ns.find? (fun n => n ∉ d.nodes) = some n) :
    ns.mapM d.position = .error (.nodeNotFound n) := by
  induction ns with
  | nil => contradiction
  | cons m ns ih =>
    rw [List.mapM_cons]
    by_cases hm : m ∈ d.nodes
    · rw [List.find?_cons_of_neg (by simpa using hm)] at h
      obtain ⟨i, rfl⟩ := exists_nodeAt hm
      rw [position_nodeAt, ih h]
      rfl
    · rw [List.find?_cons_of_pos (by simpa using hm)] at h
      obtain rfl := Option.some.inj h
      rw [position_eq_error hm]
      rfl

/-- The members that are found are at the nodes that separate two others of the part. -/
theorem mem_cutMembers_nodeAt {is : List (Fin d.size)} :
    n ∈ Node.sorted ((Graph.cutMembers (Graph.lookup d.table) is).map d.nodeAt) ↔
      n ∈ is.map d.nodeAt ∧ SeparatorOf d.shape {m | m ∈ is.map d.nodeAt} n := by
  have himage : {m | m ∈ is.map d.nodeAt} = d.nodeAt '' {i | i ∈ is} := by
    ext m
    simp
  have hsep (i : Fin d.size) : SeparatorOf d.undirected.shape {j | j ∈ is} i ↔
      SeparatorOf d.shape (d.nodeAt '' {j | j ∈ is}) (d.nodeAt i) := by
    rw [← comap_nodeAt]
    exact separatorOf_comap nodeAt_injective
      fun a b h => mem_range_nodeAt.2 (mem_nodes_of_adj h)
  rw [Node.mem_sorted, himage]
  simp only [List.mem_map,
    Graph.mem_cutMembers (G := d.undirected.shape) fun u w => mem_lookup_table]
  constructor
  · rintro ⟨i, ⟨hi, h⟩, rfl⟩
    exact ⟨⟨i, hi, rfl⟩, (hsep i).1 h⟩
  · rintro ⟨⟨i, hi, rfl⟩, h⟩
    exact ⟨i, ⟨hi, (hsep i).2 h⟩, rfl⟩

/-- Among all vertices the members that are found are the cut vertices. -/
theorem cutMembers_finRange (d : Device) :
    Graph.cutMembers (Graph.lookup d.table) (List.finRange d.size) =
      Graph.cutVertices (Graph.lookup d.table) := by
  refine List.filter_congr fun i hi => Bool.eq_iff_iff.2 ?_
  have hmembers : {j | j ∈ List.finRange d.size} = Set.univ := by
    ext j
    simp
  have hcut := Graph.mem_cutVertices (v := i) (G := d.undirected.shape) fun u w => mem_lookup_table
  rw [Graph.cutVertices, List.mem_filter, and_iff_right hi] at hcut
  rw [Graph.separates_iff (G := d.undirected.shape) fun u w => mem_lookup_table, hmembers,
    separatorOf_univ, hcut]

/-- With respect to a part, the first of its nodes that is not on the device is reported. If there
is none, the articulation points are the nodes of the part that lie on all walks of the device
between two other nodes of the part, which are joined; the connections of the part do not matter.
None is named twice. With respect to the whole device they are its articulation points. -/
theorem articulationPointsOf_exact (d : Device) :
    (∀ part : Device, ∀ n, part.nodes.find? (fun n => n ∉ d.nodes) = some n →
      d.articulationPointsOf part = .error (.nodeNotFound n)) ∧
    (∀ part : Device, (∀ n ∈ part.nodes, n ∈ d.nodes) →
      ∃ cuts, d.articulationPointsOf part = .ok cuts ∧ cuts.Nodup ∧
        ∀ n, n ∈ cuts ↔ n ∈ part.nodes ∧ ∃ u ∈ part.nodes, ∃ w ∈ part.nodes,
          u ≠ n ∧ w ≠ n ∧ u ≠ w ∧ d.shape.Reachable u w ∧
            ∀ q : d.shape.Walk u w, n ∈ q.support) ∧
    d.articulationPointsOf d = .ok d.articulationPoints := by
  refine ⟨fun part n h => ?_, fun part h => ?_, ?_⟩
  · rw [articulationPointsOf, mapM_position_eq_error h]
    rfl
  · obtain ⟨is, his, hnodes⟩ := mapM_position h
    refine ⟨Node.sorted ((Graph.cutMembers (Graph.lookup d.table) is).map d.nodeAt), ?_, ?_,
      fun n => ?_⟩
    · rw [articulationPointsOf, his]
      rfl
    · have hnodup : is.Nodup := .of_map d.nodeAt (hnodes ▸ part.nodes_nodup)
      rw [(Node.sorted_perm _).nodup_iff]
      exact (hnodup.filter _).map nodeAt_injective
    · rw [mem_cutMembers_nodeAt, hnodes, separatorOf_iff_mem_support]
      rfl
  · have hpositions : ∃ is, d.nodes.mapM d.position = .ok is ∧ is.map d.nodeAt = d.nodes :=
      mapM_position fun n hn => hn
    obtain ⟨is, his, hnodes⟩ := hpositions
    obtain rfl := List.map_injective_iff.2 nodeAt_injective (hnodes.trans d.map_nodeAt.symm)
    rw [articulationPointsOf, his, articulationPoints, cutNodes, ← cutMembers_finRange]
    rfl

end CouplingMap.Device
