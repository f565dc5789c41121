import CouplingMap.Device.Prune
import CouplingMap.Proofs.Device.Cut
import CouplingMap.Proofs.Device.Readout

/-!
# Pruning keeps a device connected

Each node that pruning takes away is no separator of what is there at that moment. Walks between
the nodes that stay can therefore be led around it.

* `Device.Expendable`: a node of least degree that is no separator.
* `Device.Trimmed`: expendable nodes are removed one after another.
* `Device.trimmed_pruneFrom`: this is what pruning does.
* `Device.Trimmed.reachable_iff`: the nodes that stay are joined as before.
-/

namespace CouplingMap.Device

open SimpleGraph

variable {d e f : Device} {a b n : Node} {ns : List Node} {tieBreak : Node → Node → Bool}

/-! ## The node to go -/

/-- A node of least degree that is no separator. -/
structure Expendable (d : Device) (n : Node) : Prop where
  mem : n ∈ d.nodes
  least : ∀ m ∈ d.nodes, (d.shape.neighborSet n).ncard ≤ (d.shape.neighborSet m).ncard
  whole : ¬ Separator d.shape n

/-- The degrees in the table are the numbers of linked nodes. -/
theorem mem_degrees {k : Nat} : k ∈ d.table.toList.map List.length ↔
    ∃ i, (d.shape.neighborSet (d.nodeAt i)).ncard = k := by
  simp only [List.mem_map, Ledger.mem_toList, ← length_lookup_table]
  constructor
  · rintro ⟨_, ⟨i, rfl⟩, rfl⟩
    exact ⟨i, rfl⟩
  · rintro ⟨i, rfl⟩
    exact ⟨_, ⟨i, rfl⟩, rfl⟩

/-- The nodes of a degree that is picked out of all degrees. -/
theorem mem_extremes_view {pick : List Nat → Option Nat} : n ∈ d.view.extremes pick ↔
    n ∈ d.nodes ∧ pick (d.table.toList.map List.length) = some (d.shape.neighborSet n).ncard := by
  cases hp : pick (d.table.toList.map List.length) with
  | none =>
    have hview : pick (d.view.table.toList.map List.length) = none := hp
    simp [View.extremes, hview]
  | some k =>
    have hview : pick (d.view.table.toList.map List.length) = some k := hp
    simp only [View.extremes, hview, Node.mem_sorted, List.mem_map, List.mem_filter,
      List.mem_finRange, true_and, decide_eq_true_eq, Option.some.injEq]
    constructor
    · rintro ⟨i, rfl, rfl⟩
      exact ⟨nodeAt_mem i, length_lookup_table i⟩
    · rintro ⟨hn, rfl⟩
      obtain ⟨i, rfl⟩ := exists_nodeAt hn
      exact ⟨i, length_lookup_table i, rfl⟩

/-- If no number is better than those that bound it, the extreme nodes are those whose number of
linked nodes bounds that of every node. -/
theorem mem_extremes {better : Nat → Nat → Bool} {pick : List Nat → Option Nat}
    {R : Nat → Nat → Prop} (h : Leaders.Picks better pick R) :
    n ∈ d.extremes better ↔ n ∈ d.nodes ∧
      ∀ m ∈ d.nodes, R (d.shape.neighborSet n).ncard (d.shape.neighborSet m).ncard := by
  rw [extremes_view h, mem_extremes_view, h.some_iff, mem_degrees]
  refine and_congr_right fun hn => ⟨fun h m hm => ?_, fun h => ⟨?_, fun k hk => ?_⟩⟩
  · obtain ⟨j, rfl⟩ := exists_nodeAt hm
    exact h.2 _ (mem_degrees.2 ⟨j, rfl⟩)
  · obtain ⟨i, rfl⟩ := exists_nodeAt hn
    exact ⟨i, rfl⟩
  · obtain ⟨j, rfl⟩ := mem_degrees.1 hk
    exact h _ (nodeAt_mem j)

/-- The nodes of least degree are linked to no more nodes than any other one. -/
theorem mem_minDegreeNodes : n ∈ d.minDegreeNodes ↔ n ∈ d.nodes ∧
    ∀ m ∈ d.nodes, (d.shape.neighborSet n).ncard ≤ (d.shape.neighborSet m).ncard :=
  mem_extremes Leaders.picks_min

/-- A candidate is of least degree and no separator. -/
theorem mem_candidateNodes : n ∈ d.candidateNodes d.table ↔ d.Expendable n := by
  simp only [candidateNodes, List.mem_filter, decide_eq_true_eq, mem_cutNodes]
  constructor
  · rintro ⟨h, hcut⟩
    obtain ⟨hn, hleast⟩ := mem_minDegreeNodes.1 h
    exact ⟨hn, hleast, hcut⟩
  · intro h
    exact ⟨mem_minDegreeNodes.2 ⟨h.mem, h.least⟩, h.whole⟩

/-- The worst of some candidates is one of them. -/
theorem foldl_worseOf_mem (tieBreak : Node → Node → Bool) (w : Candidate) (cs : List Candidate) :
    cs.foldl (worseOf tieBreak) w ∈ w :: cs := by
  refine List.foldlRecOn cs (worseOf tieBreak) List.mem_cons_self fun b hb c hc => ?_
  have hc := List.mem_cons_of_mem w hc
  unfold worseOf
  split
  · exact hc
  · exact hb
  · split
    · exact hc
    · exact hb

theorem expendable_of_worstOf? (h : worstOf? tieBreak (d.candidates d.table) = some n) :
    d.Expendable n := by
  unfold worstOf? at h
  split at h
  · contradiction
  · rename_i c cs hcs
    obtain rfl := Option.some.inj h
    have hmem := foldl_worseOf_mem tieBreak c cs
    rw [← hcs] at hmem
    obtain ⟨m, hm, hplace⟩ := List.mem_filterMap.1 hmem
    obtain ⟨i, -, hi⟩ := Option.map_eq_some_iff.1 hplace
    rw [← hi]
    exact mem_candidateNodes.1 hm

/-! ## One node after another -/

/-- Expendable nodes are removed one after another. -/
inductive Trimmed : Device → List Node → Device → Prop where
  | done (d : Device) : Trimmed d [] d
  | remove {d e f : Device} {n : Node} {ns : List Node} : d.Expendable n →
      d.removeNode n = .ok e → Trimmed e ns f → Trimmed d (n :: ns) f

theorem trimmed_pruneFrom (num : Nat) (d : Device) :
    Trimmed d (pruneFrom tieBreak num d).1 (pruneFrom tieBreak num d).2 := by
  induction num generalizing d with
  | zero => exact .done d
  | succ num ih =>
    unfold pruneFrom
    split
    · exact .done d
    · rename_i n hn
      split
      · exact .done d
      · rename_i e he
        exact .remove (expendable_of_worstOf? hn) he (ih e)

theorem length_pruneFrom_le (num : Nat) (d : Device) :
    (pruneFrom tieBreak num d).1.length ≤ num := by
  induction num generalizing d with
  | zero => exact Nat.le_refl 0
  | succ num ih =>
    unfold pruneFrom
    split
    · exact Nat.zero_le _
    · split
      · exact Nat.zero_le _
      · exact Nat.succ_le_succ (ih _)

/-- The nodes that stay are joined after a removal as they were before. -/
theorem Expendable.reachable_iff (h : d.Expendable n) (hr : d.removeNode n = .ok e) (ha : a ≠ n)
    (hb : b ≠ n) : e.shape.Reachable a b ↔ d.shape.Reachable a b := by
  rw [shape_of_removeNode hr, reachable_deleteIncidenceSet ha]
  exact ⟨Evading.reachable, not_separator_iff.1 h.whole a b ha hb⟩

namespace Trimmed

theorem nodes_eq (h : Trimmed d ns e) : e.nodes = d.nodes.filter fun m => m ∉ ns := by
  induction h with
  | done d => simp
  | remove hn hr _ ih =>
    rw [ih, nodes_of_removeNode hr, List.filter_filter]
    congr 1
    funext m
    simp [Bool.and_comm]

theorem mem (h : Trimmed d ns e) : ∀ m ∈ ns, m ∈ d.nodes := by
  induction h with
  | done d => simp
  | remove hn hr _ ih =>
    intro m hm
    rcases List.mem_cons.1 hm with rfl | hm
    · exact hn.mem
    · have := ih m hm
      rw [nodes_of_removeNode hr] at this
      exact List.mem_of_mem_filter this

/-- No node is removed twice. -/
theorem nodup (h : Trimmed d ns e) : ns.Nodup := by
  induction h with
  | done d => exact .nil
  | @remove d e f n ns hn hr ht ih =>
    refine List.nodup_cons.2 ⟨fun hm => ?_, ih⟩
    have := ht.mem n hm
    rw [nodes_of_removeNode hr] at this
    simpa using (List.mem_filter.1 this).2

/-- The nodes that stay are joined as before. -/
theorem reachable_iff (h : Trimmed d ns e) (ha : a ∈ e.nodes) (hb : b ∈ e.nodes) :
    e.shape.Reachable a b ↔ d.shape.Reachable a b := by
  induction h with
  | done d => rfl
  | remove hn hr ht ih =>
    rw [ih ha hb]
    rw [ht.nodes_eq, nodes_of_removeNode hr] at ha hb
    simp only [List.mem_filter, decide_eq_true_eq] at ha hb
    exact hn.reachable_iff hr ha.1.2 hb.1.2

end Trimmed

/-- Every two nodes are joined. -/
def Connected (d : Device) : Prop := ∀ a ∈ d.nodes, ∀ b ∈ d.nodes, d.shape.Reachable a b

/-- Pruning takes away nodes of the device, at most as many as wanted and each once, in an order in
which each is of least degree and no separator when it goes. The nodes that stay are joined as
before, so that a connected device stays connected. -/
theorem prune_keeps_joined (d : Device) (num : Nat) :
    (d.prune num).1.length ≤ num ∧ (d.prune num).1.Nodup ∧
      (d.prune num).2.nodes = d.nodes.filter (fun m => m ∉ (d.prune num).1) ∧
      (∃ ns, ns.Perm (d.prune num).1 ∧ Trimmed d ns (d.prune num).2) ∧
      (∀ a ∈ (d.prune num).2.nodes, ∀ b ∈ (d.prune num).2.nodes,
        ((d.prune num).2.shape.Reachable a b ↔ d.shape.Reachable a b)) ∧
      (d.Connected → (d.prune num).2.Connected) := by
  obtain ⟨taken, hperm, ht, hlength⟩ : ∃ taken, (d.prune num).1.Perm taken ∧
      Trimmed d taken (d.prune num).2 ∧ taken.length ≤ num :=
    ⟨_, Node.sorted_perm _, trimmed_pruneFrom num d, length_pruneFrom_le num d⟩
  have hstay : (d.prune num).2.nodes = d.nodes.filter fun m => m ∉ (d.prune num).1 := by
    rw [ht.nodes_eq]
    congr 1
    funext m
    simp only [hperm.mem_iff]
  refine ⟨hperm.length_eq ▸ hlength, hperm.nodup_iff.2 ht.nodup, hstay, ⟨taken, hperm.symm, ht⟩,
    fun a ha b hb => ht.reachable_iff ha hb, fun hd a ha b hb => ?_⟩
  have hmem {m : Node} (hm : m ∈ (d.prune num).2.nodes) : m ∈ d.nodes :=
    List.mem_of_mem_filter (hstay ▸ hm)
  exact (ht.reachable_iff ha hb).2 (hd a (hmem ha) b (hmem hb))

end CouplingMap.Device
