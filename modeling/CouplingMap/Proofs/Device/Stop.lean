import CouplingMap.Proofs.Device.Adjacency
import CouplingMap.Proofs.Device.Worst
import Mathlib.Combinatorics.SimpleGraph.Acyclic
import Mathlib.Data.Set.Finite.Lemmas

/-!
# Pruning stops early only where it must

Pruning goes on as long as a node of least degree is no separator. A separator has two neighbours,
so where pruning stops every node has at least two. Without cycles there is always a node with at
most one neighbour, and pruning stops only when no nodes are left.

* `exists_neighborSet_subsingleton`: a graph without cycles has a vertex with at most one neighbour.
* `Device.not_expendable_of_length_lt`: where pruning stops early, no node can go.
* `Device.two_le_ncard_of_not_expendable`: there every node has two neighbours.
* `Device.prune_stops`: what pruning leaves when it stops early, and when it never does.
-/

namespace CouplingMap

/-- A graph without cycles has a vertex with at most one neighbour. -/
theorem exists_neighborSet_subsingleton {V : Type} [Finite V] [Nonempty V] {G : SimpleGraph V}
    (h : G.IsAcyclic) : ∃ v, (G.neighborSet v).Subsingleton := by
  -- A path cannot be made longer at its start if it is a longest one.
  obtain ⟨u, v, p, hp, hlongest⟩ :=
    SimpleGraph.Walk.exists_isPath_forall_isPath_length_le_length G
  have honly {w : V} (hadj : G.Adj u w) : w = p.snd := by
    refine h.eq_snd_of_adj_start hp hadj (by_contra fun hw => ?_)
    have := hlongest _ _ _ ((SimpleGraph.Walk.cons_isPath_iff hadj.symm p).2 ⟨hp, hw⟩)
    rw [SimpleGraph.Walk.length_cons] at this
    omega
  exact ⟨u, fun w hw w' hw' => (honly hw).trans (honly hw').symm⟩

namespace Device

variable {d e : Device} {n : Node} {ns : List Node} {num : Nat} {tieBreak : Node → Node → Bool}

/-! ## Where pruning stops -/

/-- Where pruning stops early, no node can go. -/
theorem not_expendable_of_length_lt (h : (pruneFrom tieBreak num d).1.length < num) (n : Node) :
    ¬ (pruneFrom tieBreak num d).2.Expendable n := by
  induction num generalizing d with
  | zero => exact absurd h (Nat.not_lt_zero _)
  | succ num ih =>
    unfold pruneFrom at h ⊢
    split at h
    · rename_i hnone
      intro hn
      rw [candidates_eq] at hnone
      have hmem := List.mem_map_of_mem (f := d.candidate) (mem_candidateNodes.2 hn)
      cases hcs : (d.candidateNodes d.table).map d.candidate with
      | nil => exact List.not_mem_nil (hcs ▸ hmem)
      | cons c cs =>
        rw [hcs] at hnone
        contradiction
    · rename_i m hm
      obtain ⟨e, he, -⟩ := removeNode_eq_ok (expendable_of_worstOf? hm).mem
      simp only [he] at h ⊢
      exact ih (Nat.lt_of_succ_lt_succ h)

/-- A device with nodes has one of least degree. -/
theorem exists_least (h : d.nodes ≠ []) : ∃ n ∈ d.nodes, ∀ m ∈ d.nodes,
    (d.shape.neighborSet n).ncard ≤ (d.shape.neighborSet m).ncard :=
  Set.exists_min_image {n | n ∈ d.nodes} (fun n => (d.shape.neighborSet n).ncard)
    (List.finite_toSet d.nodes) (List.exists_mem_of_ne_nil _ h)

theorem finite_neighborSet (d : Device) (n : Node) : (d.shape.neighborSet n).Finite :=
  (List.finite_toSet d.nodes).subset fun _ hm => mem_nodes_of_adj (SimpleGraph.Adj.symm hm)

/-- A separator has at least two neighbours. -/
theorem two_le_ncard_of_separator (h : Separator d.shape n) :
    2 ≤ (d.shape.neighborSet n).ncard := by
  obtain ⟨x, y, hx, hy, hne⟩ := h.exists_ne
  exact (Set.one_lt_ncard_iff (d.finite_neighborSet n)).2 ⟨x, y, hx, hy, hne⟩

/-- If no node can go, all nodes of least degree are separators. -/
theorem separator_of_not_expendable (h : ∀ n, ¬ d.Expendable n) (hn : n ∈ d.nodes)
    (hleast : ∀ m ∈ d.nodes, (d.shape.neighborSet n).ncard ≤ (d.shape.neighborSet m).ncard) :
    Separator d.shape n :=
  by_contra fun hwhole => h n ⟨hn, hleast, hwhole⟩

/-- If no node can go, every node has at least two neighbours. -/
theorem two_le_ncard_of_not_expendable (h : ∀ n, ¬ d.Expendable n) (hn : n ∈ d.nodes) :
    2 ≤ (d.shape.neighborSet n).ncard := by
  obtain ⟨m, hm, hleast⟩ := exists_least (List.ne_nil_of_mem hn)
  exact (two_le_ncard_of_separator (separator_of_not_expendable h hm hleast)).trans (hleast n hn)

/-! ## Devices without cycles -/

/-- Without cycles some node has at most one neighbour. -/
theorem exists_ncard_le_one (hcycle : d.shape.IsAcyclic) (h : d.nodes ≠ []) :
    ∃ n ∈ d.nodes, (d.shape.neighborSet n).ncard ≤ 1 := by
  have hpos : 0 < d.size := d.length_nodes ▸ List.length_pos_of_ne_nil h
  have : Nonempty (Fin d.size) := ⟨⟨0, hpos⟩⟩
  obtain ⟨i, hi⟩ := exists_neighborSet_subsingleton
    (hcycle.of_comap (f := ⟨d.nodeAt, nodeAt_injective⟩))
  refine ⟨d.nodeAt i, nodeAt_mem i, (Set.ncard_le_one (d.finite_neighborSet _)).2 ?_⟩
  intro a ha b hb
  obtain ⟨j, rfl⟩ := exists_nodeAt (mem_nodes_of_adj (SimpleGraph.Adj.symm ha))
  obtain ⟨k, rfl⟩ := exists_nodeAt (mem_nodes_of_adj (SimpleGraph.Adj.symm hb))
  exact congrArg d.nodeAt (hi ha hb)

/-- Nodes take their links with them, and no new ones come up. -/
theorem Trimmed.shape_le (h : Trimmed d ns e) : e.shape ≤ d.shape := by
  induction h with
  | done d => exact le_rfl
  | remove hn hr _ ih =>
    rw [shape_of_removeNode hr] at ih
    exact ih.trans (SimpleGraph.deleteIncidenceSet_le _ _)

/-- The nodes that go and the nodes that stay are all nodes. -/
theorem Trimmed.length_eq (h : Trimmed d ns e) :
    ns.length + e.nodes.length = d.nodes.length := by
  rw [h.nodes_eq, ← List.length_append]
  exact (Node.perm_taken h.nodup d.nodes_nodup h.mem).length_eq

/-- When pruning stops before it has taken away as many nodes as wanted, no nodes are left, or all
nodes of least degree are articulation points and every node is linked to two others at least. From
a device whose links make no cycle it takes away as many nodes as wanted, or all. -/
theorem prune_stops (d : Device) (num : Nat) :
    ((d.prune num).1.length < num → (d.prune num).2.nodes = [] ∨
      (∀ n ∈ (d.prune num).2.minDegreeNodes, n ∈ (d.prune num).2.articulationPoints) ∧
        ∀ n ∈ (d.prune num).2.nodes, ∃ k, (d.prune num).2.degree n = .ok k ∧ 2 ≤ k) ∧
    (d.shape.IsAcyclic → (d.prune num).1.length = min num d.nodes.length) := by
  obtain ⟨taken, hperm, ht, hle, hstop⟩ : ∃ taken, (d.prune num).1.Perm taken ∧
      Trimmed d taken (d.prune num).2 ∧ taken.length ≤ num ∧
      (taken.length < num → ∀ n, ¬ (d.prune num).2.Expendable n) :=
    ⟨_, Node.sorted_perm _, trimmed_pruneFrom num d, length_pruneFrom_le num d,
      not_expendable_of_length_lt⟩
  rw [hperm.length_eq]
  refine ⟨fun hlt => .inr ⟨fun n hn => ?_, fun n hn => ?_⟩, fun hcycle => ?_⟩
  · obtain ⟨hmem, hleast⟩ := mem_minDegreeNodes.1 hn
    exact mem_cutNodes.2 (separator_of_not_expendable (hstop hlt) hmem hleast)
  · exact ⟨_, degree_eq_ok_iff.2 ⟨hn, rfl⟩, two_le_ncard_of_not_expendable (hstop hlt) hn⟩
  · have hall := ht.length_eq
    by_cases hlt : taken.length < num
    · -- A node with at most one neighbour could still go.
      have hnil : (d.prune num).2.nodes = [] := by
        by_contra hne
        obtain ⟨n, hn, hone⟩ := exists_ncard_le_one (hcycle.anti ht.shape_le) hne
        have := two_le_ncard_of_not_expendable (hstop hlt) hn
        omega
      rw [hnil, List.length_nil] at hall
      omega
    · omega

end Device

end CouplingMap
