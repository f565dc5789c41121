import CouplingMap.Proofs.Device.Shape
import CouplingMap.Proofs.Device.View

/-!
# Degrees and the matrix, read off the undirected view

A device counts the seats at the other ends of the connections of a seat, looks for extreme degrees
in one pass over the node order, and marks the cells of its matrix connection by connection. The
undirected view has the same degrees and the same matrix.

* `Device.degree_seat`: the seats that are connected with a seat are the neighbours in the view.
* `Leaders.scan_eq`: a pass keeps the best degree of the nodes it has met, and who has it.
* `Marks.mark_markAll`: marking pairs marks their ends in both orders, and nothing else.
* `Device.degree_view`, `Device.extremes_view`, `Device.matrix_view`: the answers are those of the
  view.
-/

namespace CouplingMap.Device

variable {d : Device} {n : Node}

/-! ## Degrees -/

/-- Collecting a list in a set keeps one of every item. -/
theorem nodup_foldr_insert (xs : List Nat) : (xs.foldr List.insert []).Nodup := by
  induction xs with
  | nil => exact .nil
  | cons x xs ih => exact ih.insert

theorem mem_foldr_insert {xs : List Nat} {i : Nat} : i ∈ xs.foldr List.insert [] ↔ i ∈ xs := by
  induction xs with
  | nil => exact Iff.rfl
  | cons x xs ih => rw [List.foldr_cons, List.mem_insert_iff, ih, List.mem_cons]

/-- A connection is found between the seats of two nodes just if the nodes have one. -/
theorem hasConnection_eq_isSome {a b : Node} {i j : Nat} (ha : d.seats.get? i = some a)
    (hb : d.seats.get? j = some b) : d.hasConnection a b = (d.linkAt? i j).isSome := by
  rw [hasConnection, find?_eq_linkAt? ha hb, Option.isSome_map]

/-- Opposite a seat are the seats that a connection runs to or comes from. -/
theorem mem_opposite {i j : Nat} : j ∈ d.incidence.opposite i ↔
    (d.linkAt? i j).isSome = true ∨ (d.linkAt? j i).isSome = true := by
  simp only [Incidence.opposite, incidence, Bins.row_spread, List.mem_append, List.mem_map,
    List.mem_filter, decide_eq_true_eq, linkAt?, List.find?_isSome, Link.runs_iff]
  grind

/-- Opposite the seat of a node are the seats of the nodes linked to it. -/
theorem mem_opposite_order {i j : Fin d.size} :
    d.order.get j ∈ d.incidence.opposite (d.order.get i) ↔ d.undirected.Joined i j := by
  rw [mem_opposite, joined_undirected, ← hasConnection_eq_isSome (d.seat_nodeAt i) (d.seat_nodeAt j),
    ← hasConnection_eq_isSome (d.seat_nodeAt j) (d.seat_nodeAt i), ← Bool.or_eq_true]
  rfl

theorem mem_order_of_opposite {i j : Nat} (h : j ∈ d.incidence.opposite i) : j ∈ d.order := by
  simp only [mem_opposite, Option.isSome_iff_exists, linkAt?_eq_some] at h
  obtain ⟨l, ⟨k, hk⟩, hruns⟩ | ⟨l, ⟨k, hk⟩, hruns⟩ := h
  · exact (Link.runs_iff.1 hruns).2 ▸ (d.link_fits hk).target_mem
  · exact (Link.runs_iff.1 hruns).1 ▸ (d.link_fits hk).source_mem

/-- As many seats are connected with the seat of a node as it has neighbours in the view. -/
theorem degree_seat (i : Fin d.size) :
    d.incidence.degree (d.order.get i) = (d.undirected.neighbours i).length := by
  have hget : Function.Injective d.order.get := List.nodup_iff_injective_get.1 d.order_nodup
  have hperm : ((d.incidence.opposite (d.order.get i)).foldr List.insert []).Perm
      ((d.undirected.neighbours i).map d.order.get) := by
    refine (List.perm_ext_iff_of_nodup (nodup_foldr_insert _)
      ((d.undirected.nodup_neighbours i).map hget)).2 fun k => ?_
    rw [mem_foldr_insert, List.mem_map]
    constructor
    · intro h
      obtain ⟨j, rfl⟩ := List.mem_iff_get.1 (mem_order_of_opposite h)
      exact ⟨j, Graph.mem_neighbours.2 (mem_opposite_order.1 h), rfl⟩
    · rintro ⟨j, hj, rfl⟩
      exact mem_opposite_order.2 (Graph.mem_neighbours.1 hj)
  rw [Incidence.degree, hperm.length_eq, List.length_map]

/-- The degree of a node is the number of its neighbours in the view. -/
theorem degree_view (d : Device) (n : Node) : d.degree n = d.view.degree n := by
  rw [View.degree, ← position_view, degree]
  by_cases hn : n ∈ d.nodes
  · obtain ⟨i, rfl⟩ := exists_nodeAt hn
    rw [seat_eq_ok (d.seat_nodeAt i), position_nodeAt]
    exact congrArg Except.ok (degree_seat i)
  · rw [seat_eq_error hn, position_eq_error hn]
    rfl

/-! ## Extreme degrees -/

namespace Leaders

variable {better : Nat → Nat → Bool} {pick : List Nat → Option Nat} {R : Nat → Nat → Prop}

/-- The nodes of a degree that is picked out of all degrees, the last one first. -/
def picked (pick : List Nat → Option Nat) (xs : List (Node × Nat)) : Leaders :=
  match pick (xs.map Prod.snd) with
  | none => ⟨none, []⟩
  | some k => ⟨some k, ((xs.filter fun x => x.2 = k).map Prod.fst).reverse⟩

/-- What picking a bound of all numbers needs to have to do with what is better: a number that is
not better than the bound is bounded by it. -/
structure Picks (better : Nat → Nat → Bool) (pick : List Nat → Option Nat)
    (R : Nat → Nat → Prop) : Prop where
  none_iff : ∀ {ks}, pick ks = none ↔ ks = []
  some_iff : ∀ {ks k}, pick ks = some k ↔ k ∈ ks ∧ ∀ l ∈ ks, R k l
  better_iff : ∀ {k l}, better l k = true ↔ ¬ R k l

theorem picks_min : Picks (fun l k => decide (l < k)) List.min? (· ≤ ·) where
  none_iff := List.min?_eq_none_iff
  some_iff := List.min?_eq_some_iff
  better_iff := by simp

theorem picks_max : Picks (fun l k => decide (k < l)) List.max? (fun k l => l ≤ k) where
  none_iff := List.max?_eq_none_iff
  some_iff := List.max?_eq_some_iff
  better_iff := by simp

theorem Picks.exists_eq_some (h : Picks better pick R) {ks : List Nat} (hne : ks ≠ []) :
    ∃ k, pick ks = some k := by
  cases hp : pick ks with
  | none => exact absurd (h.none_iff.1 hp) hne
  | some k => exact ⟨k, rfl⟩

/-- The pick changes for a better number only. -/
theorem Picks.pick_concat (h : Picks better pick R) {ks : List Nat} {k : Nat}
    (hk : pick ks = some k) (l : Nat) :
    pick (ks ++ [l]) = some (if better l k then l else k) := by
  obtain ⟨hmem, hbound⟩ := h.some_iff.1 hk
  split
  · rename_i hl
    have hne : ks ++ [l] ≠ [] := by simp
    obtain ⟨m, hm⟩ := h.exists_eq_some hne
    obtain ⟨hmm, hmbound⟩ := h.some_iff.1 hm
    rcases List.mem_append.1 hmm with hmm | hmm
    · -- The new pick would have been the old one, which does not bound the new number.
      have hold := h.some_iff.2 ⟨hmm, fun x hx => hmbound x (List.mem_append_left _ hx)⟩
      obtain rfl : m = k := Option.some.inj (hold.symm.trans hk)
      exact absurd (hmbound l (by simp)) (h.better_iff.1 hl)
    · rw [hm, List.mem_singleton.1 hmm]
  · rename_i hl
    have hR : R k l := not_not.1 fun hR => hl (h.better_iff.2 hR)
    refine h.some_iff.2 ⟨List.mem_append_left _ hmem, fun x hx => ?_⟩
    rcases List.mem_append.1 hx with hx | hx
    · exact hbound x hx
    · exact List.mem_singleton.1 hx ▸ hR

/-- Meeting one more node keeps the picked ones. -/
theorem meet_picked (h : Picks better pick R) (xs : List (Node × Nat)) (n : Node) (l : Nat) :
    (picked pick xs).meet better n l = picked pick (xs ++ [(n, l)]) := by
  have hks : (xs ++ [(n, l)]).map Prod.snd = xs.map Prod.snd ++ [l] := List.map_append
  unfold picked
  rw [hks]
  cases hp : pick (xs.map Prod.snd) with
  | none =>
    obtain rfl : xs = [] := List.map_eq_nil_iff.1 (h.none_iff.1 hp)
    obtain ⟨k, hk⟩ := h.exists_eq_some (List.cons_ne_nil l [])
    obtain rfl : k = l := List.mem_singleton.1 (h.some_iff.1 hk).1
    simp [meet, hk]
  | some k =>
    have hbound := (h.some_iff.1 hp).2
    rw [h.pick_concat hp]
    by_cases hlk : l = k
    · subst hlk
      simp [meet, List.filter_append]
    by_cases hl : better l k = true
    · -- No node before this one has its degree.
      have hnone : xs.filter (fun x => x.2 = l) = [] := by
        refine List.filter_eq_nil_iff.2 fun x hx hxl => h.better_iff.1 hl ?_
        exact of_decide_eq_true hxl ▸ hbound _ (List.mem_map_of_mem hx)
      simp [meet, hlk, hl, hnone]
    · simp [meet, hlk, hl]

/-- A pass keeps the nodes of the best degree. -/
theorem scan_eq (h : Picks better pick R) (xs : List (Node × Nat)) :
    xs.foldl (fun s x => s.meet better x.1 x.2) ⟨none, []⟩ = picked pick xs := by
  induction xs using List.reverseRecOn with
  | nil => rw [picked, List.map_nil, h.none_iff.2 rfl]; rfl
  | append_singleton xs x ih =>
    rw [List.foldl_append, ih]
    exact meet_picked h xs x.1 x.2

end Leaders

/-- The nodes in order, with their seats. -/
theorem zip_order (d : Device) :
    d.nodes.zip d.order = (List.finRange d.size).map fun i => (d.nodeAt i, d.order.get i) := by
  have horder : (List.finRange d.size).map d.order.get = d.order := List.map_get_finRange d.order
  calc
    d.nodes.zip d.order = ((List.finRange d.size).map d.nodeAt).zip
        ((List.finRange d.size).map d.order.get) := by rw [map_nodeAt, horder]
    _ = (List.finRange d.size).map fun i => (d.nodeAt i, d.order.get i) := List.zip_map'

/-- The nodes of a degree that is picked out are found in one pass. -/
theorem extremes_view {better : Nat → Nat → Bool} {pick : List Nat → Option Nat}
    {R : Nat → Nat → Prop} (h : Leaders.Picks better pick R) (d : Device) :
    d.extremes better = d.view.extremes pick := by
  have hpass : ((d.nodes.zip d.order).foldl
      (fun s p => s.meet better p.1 (d.incidence.degree p.2)) ⟨none, []⟩) =
      Leaders.picked pick ((List.finRange d.size).map fun i =>
        (d.nodeAt i, (d.undirected.neighbours i).length)) := by
    rw [← Leaders.scan_eq h, zip_order, List.foldl_map, List.foldl_map]
    simp only [degree_seat]
  have hview : d.view.extremes pick =
      match pick (d.undirected.table.toList.map List.length) with
      | none => []
      | some k => Node.sorted (((List.finRange d.size).filter fun i =>
          d.undirected.table[i].length = k).map d.nodeAt) := rfl
  rw [extremes, hpass, hview, Leaders.picked, Ledger.toList_eq]
  simp only [List.map_map, Function.comp_def, Graph.getElem_table]
  cases pick ((List.finRange d.size).map fun i => (d.undirected.neighbours i).length) with
  | none => exact List.mergeSort_nil
  | some k =>
    dsimp only
    rw [List.filter_map, List.map_map]
    refine Node.sorted_eq_of_perm ?_ (List.reverse_perm _)
    exact List.nodup_reverse.2 (((List.nodup_finRange d.size).filter _).map nodeAt_injective)

/-- Nodes of extreme degree are listed once each, in ascending order. -/
theorem pairwise_extremes {better : Nat → Nat → Bool} {pick : List Nat → Option Nat}
    {R : Nat → Nat → Prop} (h : Leaders.Picks better pick R) (d : Device) :
    (d.extremes better).Pairwise fun a b => compare a b = .lt := by
  rw [extremes_view h, View.extremes]
  split
  · exact .nil
  · exact Node.pairwise_sorted (((List.nodup_finRange _).filter _).map nodeAt_injective)

theorem minDegreeNodes_view (d : Device) : d.minDegreeNodes = d.view.extremes List.min? :=
  extremes_view Leaders.picks_min d

theorem maxDegreeNodes_view (d : Device) : d.maxDegreeNodes = d.view.extremes List.max? :=
  extremes_view Leaders.picks_max d

theorem candidates_view (d : Device) : d.candidates d.table = d.view.candidates := by
  unfold candidates candidateNodes
  rw [minDegreeNodes_view]
  rfl

/-! ## The matrix -/

namespace Marks

variable {n : Nat} {m : Marks n} {i j a b : Fin n}

theorem getElem_blank : (blank n)[i][j] = false := by
  rw [blank, Ledger.getElem_replicate, Ledger.getElem_replicate]

/-- A mark is made in one place. -/
theorem getElem_mark : (m.mark a b)[i][j] = (decide ((a, b) = (i, j)) || m[i][j]) := by
  rw [mark, Ledger.getElem_set]
  by_cases ha : a = i
  · rw [if_pos ha, Ledger.getElem_set]
    by_cases hb : b = j <;> simp [ha, hb]
  · simp [ha]

/-- Marking pairs marks their ends in both orders, and nothing else. -/
theorem getElem_markAll (ps : List (Fin n × Fin n)) :
    (m.markAll ps)[i][j] = (decide ((i, j) ∈ ps ∨ (j, i) ∈ ps) || m[i][j]) := by
  induction ps generalizing m with
  | nil => simp [markAll]
  | cons p ps ih =>
    obtain ⟨a, b⟩ := p
    have hcons : m.markAll ((a, b) :: ps) = ((m.mark a b).mark b a).markAll ps := rfl
    rw [hcons, ih, getElem_mark, getElem_mark, Bool.eq_iff_iff]
    simp only [List.mem_cons, Bool.or_eq_true, decide_eq_true_eq, Prod.mk.injEq]
    grind

end Marks

/-- The matrix tells for every two positions whether they are neighbours in the view. -/
theorem matrix_view (d : Device) : d.matrix = d.view.matrix := by
  have hcell (i j : Fin d.size) : ((Marks.blank d.size).markAll d.linkedPlaces)[i][j] =
      d.undirected.table[i].contains j := by
    rw [Marks.getElem_markAll, Marks.getElem_blank, Bool.or_false, Bool.eq_iff_iff,
      decide_eq_true_iff, List.contains_iff_mem, Graph.getElem_table, Graph.mem_neighbours,
      joined_undirected, shape_adj, linkedPlaces_eq]
    simp only [List.mem_filterMap, endPlaces?_eq_some, ← exists_or, ← and_or_left]
  have hview : d.view.matrix = List.ofFn fun i : Fin d.size =>
      List.ofFn fun j : Fin d.size => d.undirected.table[i].contains j := rfl
  simp only [hview, matrix, Ledger.toList_eq, List.ofFn_eq_map, List.map_map, Function.comp_def,
    hcell]

end CouplingMap.Device
