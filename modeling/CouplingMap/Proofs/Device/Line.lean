import CouplingMap.Device.Line
import CouplingMap.Proofs.Device.Shape
import CouplingMap.Proofs.Graph.PathSearch

/-!
# Lines are disjoint simple paths

The lines taken for some lengths are routes past the vertices that were used before, so no line
meets an earlier one.

* `Device.route_of_mem_linesFrom`, `Device.pairwise_linesFrom`: the lines are disjoint routes.
* `Device.length_linesFrom`: their lengths are some of the wanted ones, in the same order.
* `Device.lines_sound`: the same for the lines of a device, and when there are too few nodes.
-/

namespace CouplingMap.Device

open CouplingMap.Graph SimpleGraph

variable {n : Nat} {t : Ledger (List (Fin n)) n} {used : Ledger Bool n} {lengths : List Nat}
  {path line : List (Fin n)} {v w : Fin n}

/-! ## Used vertices -/

/-- The vertices of a line are used, and those used before. -/
theorem getElem_markUsed (used : Ledger Bool n) (line : List (Fin n)) (v : Fin n) :
    (markUsed used line)[v] = false ↔ used[v] = false ∧ v ∉ line := by
  rw [markUsed, List.foldl_eq_foldr_reverse, getElem_foldr_set]
  simp only [List.contains_eq_mem, decide_eq_true_eq, List.mem_reverse]
  split
  · rename_i h
    simp [h]
  · rename_i h
    simp [h]

/-- Clearing takes away the edges of used vertices. -/
theorem mem_clearUsed : w ∈ lookup (clearUsed t used) v ↔
    (used[v] = false ∧ used[w] = false) ∧ w ∈ lookup t v := by
  simp only [lookup, clearUsed, Ledger.getElem_ofFn]
  split
  · rename_i h
    simp [h]
  · rename_i h
    simp [h, and_comm]

/-- A route past used vertices is one before they were used. -/
theorem route_of_clearUsed {used' : Ledger Bool n}
    (h : Route (lookup (clearUsed t used')) used' path)
    (hused : ∀ v : Fin n, used'[v] = false → used[v] = false) : Route (lookup t) used path :=
  ⟨h.nodup, fun v hv => hused v (h.free v hv), h.chain.imp fun _ _ he => (mem_clearUsed.1 he).2⟩

/-! ## Lines in order -/

/-- What is taken for a length: nothing if there is no route of that length, else the beginning of
a route. -/
theorem linesFrom_cons (length : Nat) (lengths : List Nat) (t : Ledger (List (Fin n)) n)
    (used : Ledger Bool n) :
    (linesFrom (length :: lengths) t used = linesFrom lengths t used ∧
      ∀ path, Route (lookup t) used path → path.length ≠ length) ∨
      ∃ line, Route (lookup t) used line ∧ line.length = length ∧
        linesFrom (length :: lengths) t used = line ::
          linesFrom lengths (clearUsed t (markUsed used line)) (markUsed used line) := by
  have hroute := route_longestPath (lookup t) used length
  by_cases h : (longestPath (lookup t) used length).length < length
  · refine Or.inl ⟨if_pos h, fun path hpath hlength => Nat.not_le.2 h ?_⟩
    have hle := length_le_longestPath hpath (Nat.le_of_eq hlength)
    rwa [hlength] at hle
  · refine Or.inr ⟨(longestPath (lookup t) used length).take length, ?_, ?_, if_neg h⟩
    · exact ⟨hroute.nodup.sublist (List.take_sublist ..),
        fun v hv => hroute.free v (List.mem_of_mem_take hv), hroute.chain.take _⟩
    · exact List.length_take_of_le (Nat.le_of_not_lt h)

/-- The lines are routes past the used vertices. -/
theorem route_of_mem_linesFrom (h : path ∈ linesFrom lengths t used) :
    Route (lookup t) used path := by
  induction lengths generalizing t used with
  | nil => contradiction
  | cons length lengths ih =>
    rcases linesFrom_cons length lengths t used with ⟨heq, -⟩ | ⟨line, hline, -, heq⟩
    · exact ih (heq ▸ h)
    · rw [heq] at h
      rcases List.mem_cons.1 h with rfl | h
      · exact hline
      · exact route_of_clearUsed (ih h) fun v hv => ((getElem_markUsed used line v).1 hv).1

/-- No two lines share a vertex. -/
theorem pairwise_linesFrom (lengths : List Nat) (t : Ledger (List (Fin n)) n)
    (used : Ledger Bool n) : (linesFrom lengths t used).Pairwise List.Disjoint := by
  induction lengths generalizing t used with
  | nil => exact .nil
  | cons length lengths ih =>
    rcases linesFrom_cons length lengths t used with ⟨heq, -⟩ | ⟨line, -, -, heq⟩
    · exact heq ▸ ih t used
    · rw [heq]
      refine List.pairwise_cons.2 ⟨fun path hpath v hv hv' => ?_, ih _ _⟩
      have hfree := (route_of_mem_linesFrom hpath).free v hv'
      exact ((getElem_markUsed used line v).1 hfree).2 hv

/-- The lengths of the lines are some of the wanted ones, in the same order. -/
theorem length_linesFrom (lengths : List Nat) (t : Ledger (List (Fin n)) n)
    (used : Ledger Bool n) :
    ((linesFrom lengths t used).map List.length).Sublist lengths := by
  induction lengths generalizing t used with
  | nil => exact List.Sublist.slnil
  | cons length lengths ih =>
    rcases linesFrom_cons length lengths t used with ⟨heq, -⟩ | ⟨line, -, hlength, heq⟩
    · exact heq ▸ (ih t used).cons length
    · rw [heq, List.map_cons, hlength]
      exact (ih _ _).cons_cons length

/-! ## The order of the lengths -/

theorem descending_perm (lengths : List Nat) : (descending lengths).Perm lengths :=
  List.mergeSort_perm ..

theorem pairwise_descending (lengths : List Nat) : (descending lengths).Pairwise (· ≥ ·) := by
  have h : (descending lengths).Pairwise fun a b => decide (b ≤ a) = true := by
    refine List.pairwise_mergeSort (fun a b c hab hbc => ?_) (fun a b => ?_) lengths
    · rw [decide_eq_true_eq] at *
      exact Nat.le_trans hbc hab
    · rw [Bool.or_eq_true, decide_eq_true_eq, decide_eq_true_eq]
      exact Nat.le_total b a
  exact h.imp of_decide_eq_true

/-- The lengths may be given in any order. -/
theorem descending_congr {lengths' : List Nat} (h : lengths.Perm lengths') :
    descending lengths = descending lengths' := by
  refine List.Perm.eq_of_pairwise (fun a b _ _ hab hba => ?_) (pairwise_descending lengths)
    (pairwise_descending lengths') ?_
  · exact Nat.le_antisymm hba hab
  exact (descending_perm lengths).trans (h.trans (descending_perm lengths').symm)

/-! ## The lines of a device -/

/-- A simple path of a device. -/
structure IsLine (d : Device) (line : List Node) : Prop where
  nodup : line.Nodup
  mem : ∀ n ∈ line, n ∈ d.nodes
  chain : line.IsChain d.shape.Adj

/-- A route on the positions is a line. -/
theorem isLine_of_route {d : Device} {blocked : Ledger Bool d.size} {path : List (Fin d.size)}
    (h : Route (lookup d.table) blocked path) : d.IsLine (path.map d.nodeAt) := by
  refine ⟨h.nodup.map nodeAt_injective, fun m hm => ?_, ?_⟩
  · obtain ⟨i, -, rfl⟩ := List.mem_map.1 hm
    exact nodeAt_mem i
  · rw [List.isChain_map]
    exact h.chain.imp fun i j hij => joined_undirected.1 (mem_lookup_table.1 hij)

theorem lines_eq (d : Device) (lengths : List Nat) : d.lines lengths =
    if d.size < lengths.sum then .error (.insufficientNodes lengths.sum d.size)
    else .ok ((linesFrom (descending lengths) d.table (.replicate d.size false)).map
      (List.map d.nodeAt)) := by
  rw [List.sum_eq_foldl]
  rfl

/-- Lines are refused just if they need more nodes than there are. Otherwise they are simple paths
of the device which share no node. Their lengths descend and are some of the wanted ones, the order
in which these are given does not matter. -/
theorem lines_sound (d : Device) (lengths : List Nat) :
    (d.size < lengths.sum →
      d.lines lengths = .error (.insufficientNodes lengths.sum d.size)) ∧
    (lengths.sum ≤ d.size → ∃ lines, d.lines lengths = .ok lines ∧
      (∀ line ∈ lines, d.IsLine line) ∧ lines.Pairwise List.Disjoint ∧
      (lines.map List.length).Pairwise (· ≥ ·) ∧ (lines.map List.length).Subperm lengths) ∧
    ∀ lengths' : List Nat, lengths'.Perm lengths → d.lines lengths' = d.lines lengths := by
  have hmap (ps : List (List (Fin d.size))) :
      (ps.map (List.map d.nodeAt)).map List.length = ps.map List.length := by
    rw [List.map_map]
    exact List.map_congr_left fun p _ => List.length_map _
  refine ⟨fun h => (d.lines_eq lengths).trans (if_pos h),
    fun h => ⟨_, (d.lines_eq lengths).trans (if_neg (Nat.not_lt.2 h)), ?_, ?_, ?_, ?_⟩, ?_⟩
  · intro line hline
    obtain ⟨path, hpath, rfl⟩ := List.mem_map.1 hline
    exact isLine_of_route (route_of_mem_linesFrom hpath)
  · refine List.pairwise_map.2 ((pairwise_linesFrom ..).imp fun h => ?_)
    exact List.disjoint_map nodeAt_injective h
  · rw [hmap]
    exact (pairwise_descending lengths).sublist (length_linesFrom ..)
  · rw [hmap]
    exact (length_linesFrom ..).subperm.trans (descending_perm lengths).subperm
  · intro lengths' h
    rw [lines_eq, lines_eq, h.sum_eq, descending_congr h]

end CouplingMap.Device
