import CouplingMap.Proofs.Device.Outline
import CouplingMap.Proofs.Device.Worst

/-!
# All views of adjacency tell the same

Connections are looked up between seats, neighbours are picked from the connections, degrees are
counted at the seats, and the matrix is marked connection by connection. All of them describe the
linked nodes.

* `Graph.length_filter_runsBetween`, `Graph.sum_length_neighbours`: a graph has one edge for every
  two joined vertices, and every edge is seen from both of its ends.
* `Device.matrix_eq`, `Device.degree_eq`, `Device.neighbours_eq`: the views in terms of linked nodes.
* `Device.mem_extremes_iff`: the nodes whose degree bounds all degrees.
* `Device.Adjacency`, `Device.adjacency`: what the views have in common.
-/

namespace CouplingMap

open scoped BigOperators

/-! ## Edges of a graph -/

namespace Graph

variable {n : Nat} {g : Graph n} {a b : Fin n}

theorem runsBetween_iff {e : Fin n × Fin n} :
    runsBetween a b e = true ↔ e = (a, b) ∨ e = (b, a) := by
  simp [runsBetween, Prod.ext_iff]

/-- Two joined vertices have exactly one edge. -/
theorem length_filter_runsBetween (g : Graph n) (a b : Fin n) :
    (g.edges.filter (runsBetween a b)).length = if g.Joined a b then 1 else 0 := by
  rw [edges, List.filter_reverse, List.length_reverse]
  split
  · rename_i hjoined
    have hpair := g.simple.filter (runsBetween a b)
    have hmem : ∃ e, e ∈ g.laid.filter (runsBetween a b) := by
      simp only [List.mem_filter, runsBetween_iff]
      rcases hjoined with h | h
      · exact ⟨_, h, Or.inl rfl⟩
      · exact ⟨_, h, Or.inr rfl⟩
    have hruns : ∀ e ∈ g.laid.filter (runsBetween a b), e = (a, b) ∨ e = (b, a) := fun e he =>
      runsBetween_iff.1 (List.mem_filter.1 he).2
    -- Of two edges between the same vertices the second would be the first one, perhaps turned.
    rcases hl : g.laid.filter (runsBetween a b) with _ | ⟨e, _ | ⟨f, rest⟩⟩
    · simp [hl] at hmem
    · rfl
    · rw [hl] at hpair hruns
      obtain ⟨hne, hswap⟩ := List.rel_of_pairwise_cons hpair List.mem_cons_self
      have he := hruns e (by simp)
      have hf := hruns f (by simp)
      rcases he with rfl | rfl <;> rcases hf with rfl | rfl <;> simp at hne hswap
  · rename_i hjoined
    rw [List.length_eq_zero_iff, List.filter_eq_nil_iff]
    intro e he hruns
    rcases runsBetween_iff.1 hruns with rfl | rfl
    · exact hjoined (Or.inl he)
    · exact hjoined (Or.inr he)

/-- The ends of as many pairs as there are, counted vertex by vertex. -/
theorem sum_length_filter {α : Type} (key : α → Fin n) (xs : List α) :
    ∑ v : Fin n, (xs.filter fun x => key x = v).length = xs.length := by
  induction xs with
  | nil => simp
  | cons x xs ih =>
    have hstep (v : Fin n) : ((x :: xs).filter fun x => key x = v).length =
        (if key x = v then 1 else 0) + (xs.filter fun x => key x = v).length := by
      rw [List.filter_cons]
      by_cases h : key x = v <;> simp [h, Nat.add_comm]
    simp only [hstep, Finset.sum_add_distrib, ih, Finset.sum_ite_eq, Finset.mem_univ, if_true,
      List.length_cons, Nat.add_comm]

/-- Every edge is seen from both of its ends. -/
theorem sum_length_neighbours (g : Graph n) :
    ∑ v : Fin n, (g.neighbours v).length = 2 * g.edges.length := by
  simp only [neighbours, edges, List.length_append, List.length_map, List.length_reverse,
    Finset.sum_add_distrib, sum_length_filter, Nat.two_mul]

end Graph

namespace Device

variable {d : Device} {n : Node} {i j : Fin d.size}

/-! ## The views -/

/-- The entry of the matrix for two positions. -/
def cell? (d : Device) (i j : Nat) : Option Bool := d.matrix[i]?.bind fun row => row[j]?

/-- The neighbours in the undirected view are the positions of the linked nodes. -/
theorem contains_table : d.table[i].contains j = d.linked (d.nodeAt i) (d.nodeAt j) := by
  rw [Bool.eq_iff_iff, List.contains_iff_mem, table, Graph.getElem_table, Graph.mem_neighbours,
    joined_undirected]
  rfl

/-- The matrix tells for every two positions whether the nodes are linked. -/
theorem matrix_eq (d : Device) : d.matrix = List.ofFn fun i : Fin d.size =>
    List.ofFn fun j : Fin d.size => d.linked (d.nodeAt i) (d.nodeAt j) := by
  simp only [matrix_view, View.matrix, ← contains_table]
  rfl

theorem row_eq (i : Fin d.size) : d.matrix[(i : Nat)]? =
    some (List.ofFn fun j : Fin d.size => d.linked (d.nodeAt i) (d.nodeAt j)) := by
  rw [matrix_eq, List.getElem?_ofFn, dif_pos i.isLt]

theorem cell?_eq (i j : Fin d.size) :
    d.cell? i j = some (d.linked (d.nodeAt i) (d.nodeAt j)) := by
  rw [cell?, row_eq, Option.bind_some, List.getElem?_ofFn, dif_pos j.isLt]

/-- The degree of a node is the number of its neighbours in the undirected view. -/
theorem degree_nodeAt (i : Fin d.size) :
    d.degree (d.nodeAt i) = .ok (d.undirected.neighbours i).length := by
  rw [degree_view, View.degree, ← position_view, position_nodeAt]
  rfl

/-- It is the number of nodes that are linked to the node. -/
theorem degree_eq_ncard (i : Fin d.size) :
    d.degree (d.nodeAt i) = .ok (d.shape.neighborSet (d.nodeAt i)).ncard := by
  rw [degree_nodeAt, ← length_lookup_table, table, Graph.lookup_table]

/-- It is the number of marks in the row of the node. -/
theorem degree_eq_count (i : Fin d.size) : d.degree (d.nodeAt i) =
    .ok ((List.ofFn fun j : Fin d.size => d.linked (d.nodeAt i) (d.nodeAt j)).count true) := by
  have hmarked : (d.undirected.neighbours i).Perm
      ((List.finRange d.size).filter fun j => d.linked (d.nodeAt i) (d.nodeAt j)) := by
    refine (List.perm_ext_iff_of_nodup (d.undirected.nodup_neighbours i)
      ((List.nodup_finRange d.size).filter _)).2 fun j => ?_
    rw [Graph.mem_neighbours, joined_undirected, List.mem_filter]
    exact (and_iff_right (List.mem_finRange j)).symm
  rw [degree_nodeAt, hmarked.length_eq, List.ofFn_eq_map, List.count, List.countP_map,
    List.countP_eq_length_filter]
  congr 3
  funext j
  simp

/-- A node of the device has a degree. -/
theorem degree_eq_ok_iff {k : Nat} :
    d.degree n = .ok k ↔ n ∈ d.nodes ∧ k = (d.shape.neighborSet n).ncard := by
  by_cases hn : n ∈ d.nodes
  · obtain ⟨i, rfl⟩ := exists_nodeAt hn
    rw [degree_eq_ncard, Except.ok.injEq, and_iff_right hn, eq_comm]
  · simp [degree, seat_eq_error hn, hn, bind, Except.bind]

/-- The degrees of all nodes count every edge twice. -/
theorem sum_degrees (d : Device) :
    ∃ ks, d.nodes.mapM d.degree = .ok ks ∧ ks.sum = 2 * d.undirected.edges.length := by
  refine ⟨(List.finRange d.size).map fun i => (d.undirected.neighbours i).length, ?_, ?_⟩
  · have hdegree : d.degree ∘ d.nodeAt = fun i => pure (d.undirected.neighbours i).length :=
      funext degree_nodeAt
    rw [← map_nodeAt, List.mapM_map, hdegree]
    exact List.mapM_pure
  · rw [← Fin.sum_univ_def, Graph.sum_length_neighbours]

/-! ## Nodes of extreme degree -/

/-- If no number is better than those that bound it, the extreme nodes are those whose degree bounds
that of every node. -/
theorem mem_extremes_iff {better : Nat → Nat → Bool} {pick : List Nat → Option Nat}
    {R : Nat → Nat → Prop} (h : Leaders.Picks better pick R) :
    n ∈ d.extremes better ↔
      ∃ k, d.degree n = .ok k ∧ ∀ m ∈ d.nodes, ∃ l, d.degree m = .ok l ∧ R k l := by
  rw [mem_extremes h]
  simp only [degree_eq_ok_iff]
  constructor
  · rintro ⟨hn, hbound⟩
    exact ⟨_, ⟨hn, rfl⟩, fun m hm => ⟨_, ⟨hm, rfl⟩, hbound m hm⟩⟩
  · rintro ⟨k, ⟨hn, rfl⟩, hbound⟩
    refine ⟨hn, fun m hm => ?_⟩
    obtain ⟨l, ⟨-, rfl⟩, hkl⟩ := hbound m hm
    exact hkl

/-- Without nodes there is none of extreme degree. -/
theorem extremes_of_nil (h : d.nodes = []) (better : Nat → Nat → Bool) :
    d.extremes better = [] := by
  rw [extremes, h]
  exact List.mergeSort_nil

/-! ## One relation -/

/-- The views of adjacency of a device describe one relation between the nodes at its positions. -/
structure Adjacency (d : Device) : Prop where
  /-- The vertices of the undirected view are the positions of the nodes. -/
  place : ∀ i : Fin d.size, d.nodes[i]? = some (d.nodeAt i)
  views : ∀ i j : Fin d.size,
    [d.cell? i j = some true,
      d.linked (d.nodeAt i) (d.nodeAt j) = true,
      ∃ ns, d.neighbours (d.nodeAt i) = .ok ns ∧ d.nodeAt j ∈ ns,
      d.undirected.Joined i j].TFAE
  /-- The matrix has a row for every node, and an entry in it for every node. -/
  square : d.matrix.length = d.size ∧ ∀ row ∈ d.matrix, row.length = d.size
  symmetric : ∀ i j : Fin d.size, d.cell? i j = d.cell? j i
  diagonal : ∀ i : Fin d.size, d.cell? i i = some false
  /-- Two linked nodes have one edge in the undirected view, and other nodes have none. -/
  edges : ∀ i j : Fin d.size, (d.undirected.edges.filter (Graph.runsBetween i j)).length =
    if d.linked (d.nodeAt i) (d.nodeAt j) then 1 else 0
  /-- Neighbours are listed once each and in node order. -/
  neighbours : ∀ n ∈ d.nodes, ∃ ns, d.neighbours n = .ok ns ∧ ns.Nodup ∧ ns.Sublist d.nodes
  /-- A degree is the number of marks in a row of the matrix. -/
  degree : ∀ i : Fin d.size, ∃ row, d.matrix[i]? = some row ∧
    d.degree (d.nodeAt i) = .ok (row.count true)
  degrees : ∃ ks, d.nodes.mapM d.degree = .ok ks ∧ ks.sum = 2 * d.undirected.edges.length
  least : ∀ n, n ∈ d.minDegreeNodes ↔
    ∃ k, d.degree n = .ok k ∧ ∀ m ∈ d.nodes, ∃ l, d.degree m = .ok l ∧ k ≤ l
  greatest : ∀ n, n ∈ d.maxDegreeNodes ↔
    ∃ k, d.degree n = .ok k ∧ ∀ m ∈ d.nodes, ∃ l, d.degree m = .ok l ∧ l ≤ k
  /-- Nodes of extreme degree are listed once each, in ascending order. -/
  ascending : d.minDegreeNodes.Pairwise (fun a b => compare a b = .lt) ∧
    d.maxDegreeNodes.Pairwise fun a b => compare a b = .lt
  none : d.nodes = [] → d.minDegreeNodes = [] ∧ d.maxDegreeNodes = []

/-- A node of the device is a neighbour just if it is linked. -/
theorem exists_mem_neighbours : (∃ ns, d.neighbours (d.nodeAt i) = .ok ns ∧ d.nodeAt j ∈ ns) ↔
    d.linked (d.nodeAt i) (d.nodeAt j) = true := by
  rw [neighbours_eq, if_pos (nodeAt_mem i)]
  simp [nodeAt_mem]

/-- The matrix, the lookup of connections, the neighbours and the undirected view of a device
describe one relation. It is symmetric, and no node is related to itself. Degrees, and the nodes of
least and greatest degree, are what this relation makes them. -/
theorem adjacency (d : Device) : d.Adjacency where
  place := d.getElem?_nodes
  views i j := by
    have hcell : d.cell? i j = some true ↔ d.linked (d.nodeAt i) (d.nodeAt j) = true := by
      rw [cell?_eq, Option.some.injEq]
    have hjoined : d.undirected.Joined i j ↔ d.linked (d.nodeAt i) (d.nodeAt j) = true :=
      joined_undirected
    tfae_have 1 ↔ 2 := hcell
    tfae_have 3 ↔ 2 := exists_mem_neighbours
    tfae_have 4 ↔ 2 := hjoined
    tfae_finish
  square := by
    rw [matrix_eq]
    simp
  symmetric i j := by
    rw [cell?_eq, cell?_eq, linked, linked, Bool.or_comm]
  diagonal i := by
    rw [cell?_eq, Option.some.injEq, Bool.eq_false_iff]
    exact d.shape.loopless.irrefl (d.nodeAt i)
  edges i j := by
    rw [Graph.length_filter_runsBetween]
    exact if_congr joined_undirected rfl rfl
  neighbours n hn := by
    rw [neighbours_eq, if_pos hn]
    exact ⟨_, rfl, d.nodes_nodup.filter _, List.filter_sublist⟩
  degree i := ⟨_, row_eq i, degree_eq_count i⟩
  degrees := d.sum_degrees
  least n := mem_extremes_iff Leaders.picks_min
  greatest n := mem_extremes_iff Leaders.picks_max
  ascending := ⟨pairwise_extremes Leaders.picks_min d, pairwise_extremes Leaders.picks_max d⟩
  none h := ⟨extremes_of_nil h _, extremes_of_nil h _⟩

end Device

end CouplingMap
