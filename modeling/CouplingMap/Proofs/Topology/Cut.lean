import CouplingMap.Proofs.Device.Cut
import CouplingMap.Proofs.Graph.Product
import CouplingMap.Proofs.Topology.Distance

/-!
# Articulation points of the devices of topologies

On a complete device the neighbours of a node are linked themselves. Around a ring the other way is
left. A grid is the product of three paths. The inner nodes of a path separate it, unless there is
a second path to evade them.

* `Topology.mem_articulationPoints_iff`: the articulation points are the separators of the names.
* `Topology.evading_ring`: on a ring all nodes but one are joined without it.
* `Topology.comap_node`: a grid is a product of paths.
* `Topology.mem_articulationPoints_line`: on a line all nodes but the ends separate.
* `Topology.articulationPoints_closed`: the articulation points of each topology.
-/

namespace CouplingMap.Topology

open Device

variable {n rows cols layers : UInt32} {d : Device}

/-! ## Named separators -/

section Named

variable {V : Type} {name : V → Node} (hinj : name.Injective)
  (hnodes : ∀ m, m ∈ d.nodes ↔ ∃ v, name v = m)

include hinj hnodes

/-- The articulation points are at the names that are separators. -/
theorem mem_articulationPoints_iff {m : Node} :
    m ∈ d.articulationPoints ↔ ∃ v, name v = m ∧ Separator (d.shape.comap name) v := by
  have hrange (a b : Node) (hab : d.shape.Adj a b) : a ∈ Set.range name :=
    (hnodes a).1 (mem_nodes_of_adj hab)
  rw [articulationPoints, mem_cutNodes]
  constructor
  · intro h
    obtain ⟨a, ha⟩ := h.exists_adj
    obtain ⟨v, rfl⟩ := hrange m a ha
    exact ⟨v, rfl, (separator_comap hinj hrange).2 h⟩
  · rintro ⟨v, rfl, h⟩
    exact (separator_comap hinj hrange).1 h

/-- There are no articulation points if no name is a separator. -/
theorem articulationPoints_eq_nil (h : ∀ v, ¬ Separator (d.shape.comap name) v) :
    d.articulationPoints = [] := by
  refine List.eq_nil_iff_forall_not_mem.2 fun m hm => ?_
  obtain ⟨v, -, hv⟩ := (mem_articulationPoints_iff hinj hnodes).1 hm
  exact h v hv

end Named

/-! ## Complete devices and rings -/

theorem articulationPoints_full (h : (full n).build = .ok d) : d.articulationPoints = [] := by
  refine articulationPoints_eq_nil (measures_full h).injective (measures_full h).mem_nodes
    fun v hv => ?_
  obtain ⟨x, y, hx, hy, hn⟩ := separator_iff_neighbours.1 hv
  have hxy : x ≠ y := by
    rintro rfl
    exact hn (.refl hx.ne')
  exact hn (.of_adj ((adj_full h).2 hxy) hx.ne' hy.ne')

/-- The number of steps around a ring from one position to another. -/
def ahead (n i j : Nat) : Nat := if i ≤ j then j - i else j + n - i

/-- The step around a ring to a position starts closer ahead of any other position. -/
theorem exists_turn_ahead {n i j : Nat} (hi : i < n) (hj : j < n) (hne : j ≠ i) :
    ∃ k < n, Turn n k j ∧ k ≠ j ∧ ahead n i k + 1 = ahead n i j := by
  simp only [Turn, ahead]
  by_cases hfirst : j = 0
  · exact ⟨n - 1, by omega, by omega, by omega, by split <;> split <;> omega⟩
  · exact ⟨j - 1, by omega, by omega, by omega, by split <;> split <;> omega⟩

/-- One position comes after another one around a ring. -/
theorem exists_next {n : Nat} (hn : 1 < n) (v : Fin n) :
    ∃ s ≠ v, ∀ a : Fin n, Turn n v a → a = s := by
  refine ⟨⟨(v + 1) % n, Nat.mod_lt _ v.pos⟩, fun heq => ?_, fun a ha => ?_⟩
  · have hself := (turn_iff v.isLt v.isLt).2 (congrArg Fin.val heq)
    simp only [Turn] at hself
    omega
  · exact Fin.ext ((turn_iff v.isLt a.isLt).1 ha).symm

/-- On a ring all positions but one are joined without it: they lead back to the next one. -/
theorem evading_ring (h : (ring n).build = .ok d) {v x y : Fin n.toNat} (hx : x ≠ v) (hy : y ≠ v) :
    Evading (d.shape.comap fun i : Fin n.toNat => ringNode i) v x y := by
  have hn : 1 < n.toNat := by
    have := Fin.val_ne_of_ne hx
    omega
  obtain ⟨s, hsv, hs⟩ := exists_next hn v
  have hback (a : Fin n.toNat) (hav : a ≠ v) (has : a ≠ s) : ∃ b, b ≠ v ∧
      (d.shape.comap fun i : Fin n.toNat => ringNode i).Adj a b ∧
        ahead n.toNat v b < ahead n.toNat v a := by
    obtain ⟨k, hk, hturn, hne, hcloser⟩ := exists_turn_ahead v.isLt a.isLt (Fin.val_ne_of_ne hav)
    refine ⟨⟨k, hk⟩, ?_, (adj_ring h).2 ⟨?_, .inr hturn⟩, by simp only; omega⟩
    · rintro rfl
      exact has (hs a hturn)
    · exact fun heq => hne (congrArg Fin.val heq).symm
  exact (Evading.of_potential hsv hback hx).trans (Evading.of_potential hsv hback hy).symm

theorem articulationPoints_ring (h : (ring n).build = .ok d) : d.articulationPoints = [] := by
  refine articulationPoints_eq_nil (measures_ring h).injective (measures_ring h).mem_nodes
    fun v hv => ?_
  obtain ⟨x, y, hx, hy, -, hn⟩ := hv
  exact hn (evading_ring h hx hy)

/-! ## Grids -/

/-- The sizes of a grid by their dimension. -/
def extent (rows cols layers : UInt32) : Fin 3 → Nat := ![rows.toNat, cols.toNat, layers.toNat]

/-- A grid is a line if two of its sizes are one. -/
def Linear (rows cols layers : UInt32) : Prop :=
  cols = 1 ∧ layers = 1 ∨ rows = 1 ∧ layers = 1 ∨ rows = 1 ∧ cols = 1

/-- A line runs in the dimension that is left. -/
theorem linear_iff : Linear rows cols layers ↔ ∃ i, ∀ k ≠ i, extent rows cols layers k = 1 := by
  have hone (s : UInt32) : s = 1 ↔ s.toNat = 1 := UInt32.toNat_inj.symm
  have hpairs {P : Fin 3 → Prop} :
      (∃ i, ∀ k ≠ i, P k) ↔ P 1 ∧ P 2 ∨ P 0 ∧ P 2 ∨ P 0 ∧ P 1 := by
    simp [Fin.exists_fin_succ, Fin.forall_fin_succ]
  rw [Linear, hpairs, hone, hone, hone]
  rfl

/-- The positions of a grid by their coordinates for the dimensions. -/
abbrev Cell (rows cols layers : UInt32) : Type := ∀ i, Fin (extent rows cols layers i)

/-- The position with given coordinates. -/
def Cell.position (p : Cell rows cols layers) : Position rows cols layers :=
  ⟨(p 0, p 1, p 2), (p 0).isLt, (p 1).isLt, (p 2).isLt⟩

/-- The coordinates of a position. -/
def Position.cell (p : Position rows cols layers) : Cell rows cols layers
  | 0 => ⟨p.1.1, p.2.1⟩
  | 1 => ⟨p.1.2.1, p.2.2.1⟩
  | 2 => ⟨p.1.2.2, p.2.2.2⟩

/-- The node with given coordinates. -/
def Cell.node (p : Cell rows cols layers) : Node := nodeOf p.position

theorem Cell.position_injective : (position : Cell rows cols layers → _).Injective := by
  intro p q hpq
  have h : ((p 0).val, (p 1).val, (p 2).val) = ((q 0).val, (q 1).val, (q 2).val) :=
    congrArg Subtype.val hpq
  rw [Prod.mk.injEq, Prod.mk.injEq] at h
  funext i
  match i with
  | 0 => exact Fin.ext h.1
  | 1 => exact Fin.ext h.2.1
  | 2 => exact Fin.ext h.2.2

section Grid

variable (h : (grid rows cols layers).build = .ok d)

include h

theorem node_injective : (Cell.node : Cell rows cols layers → Node).Injective :=
  (measures_grid h).injective.comp Cell.position_injective

theorem mem_nodes_iff_cell (m : Node) : m ∈ d.nodes ↔ ∃ p : Cell rows cols layers, p.node = m := by
  rw [(measures_grid h).mem_nodes m]
  exact ⟨fun ⟨p, hp⟩ => ⟨p.cell, hp⟩, fun ⟨p, hp⟩ => ⟨p.position, hp⟩⟩

/-- A grid is a product of paths. -/
theorem comap_node : d.shape.comap (Cell.node : Cell rows cols layers → Node) =
    productGraph fun i => SimpleGraph.pathGraph (extent rows cols layers i) := by
  ext p q
  refine (adj_grid h).trans ?_
  simp only [Cell.position, Step, productGraph_adj_three, SimpleGraph.pathGraph_adj,
    Prod.mk.injEq, Fin.ext_iff]
  grind

/-- The articulation points of a grid are at the separators of the product. -/
theorem mem_articulationPoints_grid {m : Node} : m ∈ d.articulationPoints ↔
    ∃ p : Cell rows cols layers, p.node = m ∧
      Separator (productGraph fun i => SimpleGraph.pathGraph (extent rows cols layers i)) p := by
  rw [mem_articulationPoints_iff (node_injective h) (mem_nodes_iff_cell h), comap_node h]

/-- In a grid that is no line there is a way around every node. -/
theorem articulationPoints_grid (hline : ¬ Linear rows cols layers) :
    d.articulationPoints = [] := by
  refine articulationPoints_eq_nil (node_injective h) (mem_nodes_iff_cell h) fun p => ?_
  rw [comap_node h]
  refine not_separator_product fun i => ?_
  obtain ⟨k, hk, hsize⟩ : ∃ k ≠ i, extent rows cols layers k ≠ 1 := by
    by_contra hnone
    refine hline (linear_iff.2 ⟨i, fun k hk => ?_⟩)
    exact by_contra fun hsize => hnone ⟨k, hk, hsize⟩
  exact ⟨k, hk, exists_pathGraph_adj hsize (p k)⟩

/-- On a line all nodes but the two ends are articulation points. -/
theorem mem_articulationPoints_line (hline : Linear rows cols layers) {m : Node} :
    m ∈ d.articulationPoints ↔ m ∈ d.nodes ∧ m ≠ gridNode 0 0 0 ∧
      m ≠ gridNode (rows.toNat - 1) (cols.toNat - 1) (layers.toNat - 1) := by
  obtain ⟨i, hi⟩ := linear_iff.1 hline
  have hone (k : Fin 3) (hk : k ≠ i) : Subsingleton (Fin (extent rows cols layers k)) := by
    rw [hi k hk]
    infer_instance
  -- On a line the coordinate along it tells the nodes apart.
  have hnode (p q : Cell rows cols layers) : p.node = q.node ↔ (p i).val = (q i).val :=
    ⟨fun hpq => congrArg (fun p : Cell rows cols layers => (p i).val) (node_injective h hpq),
      fun hpq => congrArg Cell.node (coordinate_injective hone (Fin.ext hpq))⟩
  have hends (p : Cell rows cols layers) :
      (p.node = gridNode 0 0 0 ↔ (p i).val = 0) ∧
      (p.node = gridNode (rows.toNat - 1) (cols.toNat - 1) (layers.toNat - 1) ↔
        (p i).val = extent rows cols layers i - 1) :=
    ⟨hnode p fun k => ⟨0, (p k).pos⟩, hnode p fun k => ⟨_, Nat.sub_one_lt (p k).pos.ne'⟩⟩
  have hinner (p : Cell rows cols layers) :
      Separator (productGraph fun i => SimpleGraph.pathGraph (extent rows cols layers i)) p ↔
        p.node ≠ gridNode 0 0 0 ∧
          p.node ≠ gridNode (rows.toNat - 1) (cols.toNat - 1) (layers.toNat - 1) := by
    rw [separator_product_iff hone, separator_pathGraph_iff, Ne, Ne, (hends p).1, (hends p).2]
    have := (p i).isLt
    omega
  rw [mem_articulationPoints_grid h, mem_nodes_iff_cell h]
  constructor
  · rintro ⟨p, rfl, hp⟩
    exact ⟨⟨p, rfl⟩, (hinner p).1 hp⟩
  · rintro ⟨⟨p, rfl⟩, hp⟩
    exact ⟨p, rfl, (hinner p).2 hp⟩

end Grid

/-- The articulation points of each topology with a device. Complete devices and rings have none,
and neither have grids, except that on a line, where two of the three sizes are one, all nodes but
the two ends are articulation points. -/
theorem articulationPoints_closed :
    (∀ n, ∃ d, (full n).build = .ok d ∧ d.articulationPoints = []) ∧
    (∀ n, ∃ d, (ring n).build = .ok d ∧ d.articulationPoints = []) ∧
    ∀ rows cols layers, rows.toNat * cols.toNat * layers.toNat < UInt64.size →
      ∃ d, (grid rows cols layers).build = .ok d ∧
        (¬ Linear rows cols layers → d.articulationPoints = []) ∧
        (Linear rows cols layers → ∀ m, m ∈ d.articulationPoints ↔
          m ∈ d.nodes ∧ m ≠ gridNode 0 0 0 ∧
            m ≠ gridNode (rows.toNat - 1) (cols.toNat - 1) (layers.toNat - 1)) := by
  refine ⟨fun n => ?_, fun n => ?_, fun rows cols layers hcount => ?_⟩
  · obtain ⟨d, hd, -⟩ := exists_build (t := full n) (by simpa [nodes] using toNat_lt_size n)
    exact ⟨d, hd, articulationPoints_full hd⟩
  · obtain ⟨d, hd, -⟩ := exists_build (t := ring n) (by simpa [nodes] using toNat_lt_size n)
    exact ⟨d, hd, articulationPoints_ring hd⟩
  · obtain ⟨d, hd, -⟩ := exists_build (t := grid rows cols layers)
      (by simpa [nodes, length_gridPositions] using hcount)
    exact ⟨d, hd, articulationPoints_grid hd, fun hline m => mem_articulationPoints_line hd hline⟩

end CouplingMap.Topology
