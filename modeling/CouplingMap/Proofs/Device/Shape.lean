import CouplingMap.Device.Query
import CouplingMap.Proofs.Graph.Components
import CouplingMap.Proofs.Node.Order

/-!
# The shape of a device

The shape of a device is the relation of linked nodes. Searches run on the positions of the nodes;
the walks that they see are the walks of the shape.

* `Device.shape_adj`: nodes are linked by a connection in some direction.
* `Device.comap_nodeAt`: the undirected graph on the positions is the shape, numbered.
* `Device.shape_removeNode`: the shape without a node.
* `Device.componentCount`: the number of components.
-/

namespace CouplingMap

open SimpleGraph

/-! ## Edges -/

/-- Vertices are joined after laying edges between pairs if they were before, or are such a pair. -/
theorem Graph.joined_foldl_join {n : Nat} {ps : List (Fin n × Fin n)} {g : Graph n} {i j : Fin n} :
    (ps.foldl (fun g p => g.join p.1 p.2) g).Joined i j ↔
      g.Joined i j ∨ i ≠ j ∧ ((i, j) ∈ ps ∨ (j, i) ∈ ps) := by
  induction ps generalizing g with
  | nil => simp
  | cons p ps ih =>
    obtain ⟨a, b⟩ := p
    rw [List.foldl_cons, ih, joined_join]
    simp only [List.mem_cons, Prod.mk.injEq]
    grind

/-- An edge is laid in one orientation only. -/
theorem Graph.swap_notMem {n : Nat} (g : Graph n) {e : Fin n × Fin n} (he : e ∈ g.laid) :
    e.swap ∉ g.laid := by
  intro hs
  have hself : ∀ f ∈ g.laid, f ≠ f.swap := fun f hf h => g.loopless f hf (congrArg Prod.fst h)
  have hpair : g.laid.Pairwise fun e f => f ≠ e.swap := g.simple.imp And.right
  have hflip : g.laid.Pairwise fun e f => e ≠ f.swap := by
    refine hpair.imp fun h heq => h ?_
    rw [heq, Prod.swap_swap]
  exact hpair.forall_of_forall_of_flip hself hflip he hs rfl

/-- Every vertex is listed once among the neighbours of another one. -/
theorem Graph.nodup_neighbours {n : Nat} (g : Graph n) (v : Fin n) : (g.neighbours v).Nodup := by
  have hlaid := g.simple
  refine List.nodup_append'.2 ⟨?_, ?_, ?_⟩
  · refine (List.pairwise_map.2 ((hlaid.filter _).imp_of_mem ?_))
    rintro e f he hf ⟨hne, -⟩ heq
    simp only [List.mem_filter, decide_eq_true_eq] at he hf
    exact hne (Prod.ext (hf.2.trans he.2.symm) heq.symm)
  · refine (List.pairwise_map.2 ((hlaid.filter _).imp_of_mem ?_))
    rintro e f he hf ⟨hne, -⟩ heq
    simp only [List.mem_filter, decide_eq_true_eq] at he hf
    exact hne (Prod.ext heq.symm (hf.2.trans he.2.symm))
  · intro w hw hw'
    simp only [List.mem_map, List.mem_filter, decide_eq_true_eq] at hw hw'
    obtain ⟨⟨_, _⟩, ⟨he, rfl⟩, rfl⟩ := hw
    obtain ⟨⟨_, _⟩, ⟨hf, rfl⟩, rfl⟩ := hw'
    exact g.swap_notMem he hf

namespace Device

variable {d e : Device} {a b n : Node}

/-! ## Linked nodes -/

theorem linked_iff : d.linked a b = true ↔
    ∃ c ∈ d.connections, c.joins a b = true ∨ c.joins b a = true := by
  simp only [linked, hasConnection_eq_any, Bool.or_eq_true, List.any_eq_true]
  grind

/-- The relation of linked nodes. -/
def shape (d : Device) : SimpleGraph Node where
  Adj a b := d.linked a b = true
  symm := ⟨fun a b h => by rwa [linked, Bool.or_comm, ← linked]⟩
  loopless := ⟨fun a h => by
    obtain ⟨c, hc, h⟩ := linked_iff.1 h
    simp only [Connection.joins, or_self, decide_eq_true_eq] at h
    exact (fits_of_mem hc).ne (h.1.trans h.2.symm)⟩

/-- Nodes are linked by a connection in some direction. -/
theorem shape_adj : d.shape.Adj a b ↔
    ∃ c ∈ d.connections, c.joins a b = true ∨ c.joins b a = true := linked_iff

theorem mem_nodes_of_adj (h : d.shape.Adj a b) : a ∈ d.nodes := by
  obtain ⟨c, hc, h⟩ := shape_adj.1 h
  simp only [Connection.joins, decide_eq_true_eq] at h
  rcases h with ⟨rfl, -⟩ | ⟨-, rfl⟩
  · exact (fits_of_mem hc).source_mem
  · exact (fits_of_mem hc).target_mem

theorem mem_nodes_of_reachable (h : d.shape.Reachable a b) (hne : a ≠ b) : a ∈ d.nodes := by
  obtain ⟨c, hc⟩ := exists_adj_of_reachable h hne
  exact mem_nodes_of_adj hc

/-! ## Positions -/

theorem nodeAt_injective : Function.Injective d.nodeAt := fun _ _ h => nodeAt_inj.1 h

/-- The nodes at all positions are the nodes in order. -/
theorem map_nodeAt (d : Device) : (List.finRange d.size).map d.nodeAt = d.nodes := by
  refine List.ext_getElem? fun k => ?_
  rcases Nat.lt_or_ge k d.size with hk | hk
  · rw [List.getElem?_map, ← Fin.val_mk hk, ← Fin.getElem?_fin d.nodes ⟨k, hk⟩, d.getElem?_nodes]
    simp [hk]
  · rw [List.getElem?_eq_none (by simpa using hk),
      List.getElem?_eq_none (by simpa [length_nodes] using hk)]

theorem endPlaces?_eq_some {c : Connection} {i j : Fin d.size} :
    d.endPlaces? c = some (i, j) ↔ c.joins (d.nodeAt i) (d.nodeAt j) = true := by
  simp only [endPlaces?, Option.bind_eq_some_iff, Option.map_eq_some_iff, place?_eq_some,
    Connection.joins_iff, Prod.mk.injEq]
  grind

/-- Positions have an edge between them if their nodes are linked. -/
theorem joined_undirected {i j : Fin d.size} :
    d.undirected.Joined i j ↔ d.shape.Adj (d.nodeAt i) (d.nodeAt j) := by
  rw [undirected_eq, Graph.joined_foldl_join, shape_adj]
  simp only [List.mem_filterMap, endPlaces?_eq_some, Graph.not_joined_empty, false_or]
  constructor
  · rintro ⟨-, ⟨c, hc, h⟩ | ⟨c, hc, h⟩⟩
    · exact ⟨c, hc, Or.inl h⟩
    · exact ⟨c, hc, Or.inr h⟩
  · intro h
    have hne := (shape_adj.2 h : d.shape.Adj _ _).ne
    obtain ⟨c, hc, h | h⟩ := h
    · exact ⟨fun e => hne (e ▸ rfl), Or.inl ⟨c, hc, h⟩⟩
    · exact ⟨fun e => hne (e ▸ rfl), Or.inr ⟨c, hc, h⟩⟩

/-- The undirected graph on the positions is the shape, numbered. -/
theorem comap_nodeAt : d.shape.comap d.nodeAt = d.undirected.shape := by
  ext i j
  exact joined_undirected.symm

/-- The neighbours in the table are the positions of the linked nodes. -/
theorem mem_lookup_table {i j : Fin d.size} :
    j ∈ Graph.lookup d.table i ↔ d.undirected.shape.Adj i j := by
  rw [table, Graph.lookup_table, Graph.mem_neighbours, Graph.shape_adj]

/-- The neighbours of a position are as many as the nodes linked to its node. -/
theorem length_lookup_table (i : Fin d.size) :
    (Graph.lookup d.table i).length = (d.shape.neighborSet (d.nodeAt i)).ncard := by
  have hnodup : ((Graph.lookup d.table i).map d.nodeAt).Nodup := by
    rw [table, Graph.lookup_table]
    exact (d.undirected.nodup_neighbours i).map nodeAt_injective
  have hset : d.shape.neighborSet (d.nodeAt i) =
      ((Graph.lookup d.table i).map d.nodeAt).toFinset := by
    ext n
    simp only [mem_neighborSet, List.coe_toFinset, List.mem_map, Set.mem_ofPred_eq,
      mem_lookup_table, ← comap_nodeAt, comap_adj]
    constructor
    · intro h
      obtain ⟨j, rfl⟩ := exists_nodeAt (mem_nodes_of_adj h.symm)
      exact ⟨j, h, rfl⟩
    · rintro ⟨j, h, rfl⟩
      exact h
  rw [hset, Set.ncard_coe_finset, List.toFinset_card_of_nodup hnodup, List.length_map]

theorem mem_range_nodeAt : n ∈ Set.range d.nodeAt ↔ n ∈ d.nodes :=
  ⟨fun ⟨i, h⟩ => h ▸ nodeAt_mem i, exists_nodeAt⟩

/-- A separator of the shape is a separator of the positions. -/
theorem separator_nodeAt {i : Fin d.size} :
    Separator d.undirected.shape i ↔ Separator d.shape (d.nodeAt i) := by
  rw [← comap_nodeAt]
  exact separator_comap nodeAt_injective fun a b h => mem_range_nodeAt.2 (mem_nodes_of_adj h)

/-! ## Removing a node -/

/-- Only a node of the device can be removed. -/
theorem mem_of_removeNode (h : d.removeNode n = .ok e) : n ∈ d.nodes := by
  by_contra hn
  rw [removeNode, seat_eq_error hn] at h
  contradiction

theorem nodes_of_removeNode (h : d.removeNode n = .ok e) :
    e.nodes = d.nodes.filter fun m => m ≠ n := by
  obtain ⟨e', he', hnodes, -⟩ := removeNode_eq_ok (mem_of_removeNode h)
  obtain rfl := Except.ok.inj (he'.symm.trans h)
  exact hnodes

theorem connections_of_removeNode (h : d.removeNode n = .ok e) :
    e.connections = d.connections.filter fun c => !c.touches n := by
  obtain ⟨e', he', -, hconnections⟩ := removeNode_eq_ok (mem_of_removeNode h)
  obtain rfl := Except.ok.inj (he'.symm.trans h)
  exact hconnections

/-- A removed node takes its links with it, and nothing else changes. -/
theorem shape_of_removeNode (h : d.removeNode n = .ok e) :
    e.shape = d.shape.deleteIncidenceSet n := by
  ext a b
  simp only [shape_adj, deleteIncidenceSet_adj, connections_of_removeNode h, List.mem_filter,
    Connection.touches, Connection.joins, decide_eq_true_eq, Bool.not_eq_true',
    decide_eq_false_iff_not]
  grind

/-! ## Components -/

/-- The number of components of a device. -/
noncomputable def componentCount (d : Device) : Nat :=
  (componentsOn d.shape {n | n ∈ d.nodes}).ncard

/-- There are more components without a node just if the node is a separator. -/
theorem componentCount_lt_iff (h : d.removeNode n = .ok e) :
    d.componentCount < e.componentCount ↔ Separator d.shape n := by
  have hnodes : {m | m ∈ e.nodes} = {m | m ∈ d.nodes} \ {n} := by
    ext m
    simp [nodes_of_removeNode h]
  rw [componentCount, componentCount, hnodes, shape_of_removeNode h]
  exact ncard_componentsOn_lt_iff (fun a b hab => mem_nodes_of_adj hab) (List.finite_toSet _)

end Device

end CouplingMap
