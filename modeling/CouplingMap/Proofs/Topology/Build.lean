import CouplingMap.Proofs.Device.Shape
import CouplingMap.Topology.Basic
import Mathlib.Data.List.Nodup
import Mathlib.Data.List.Range

/-!
# Topologies have devices

The nodes and connections of a topology make a device as they are, so that the device of a topology
has them in their order. There is one as long as the nodes can be counted.

* `Topology.fullNode_inj`, `Topology.ringNode_inj`, `Topology.gridNode_inj`: positions have different
  nodes.
* `Topology.mem_links_full`, `Topology.mem_links_ring`, `Topology.mem_links_grid`: the connections.
* `Topology.fitting`: the nodes and connections fit together.
* `Topology.exists_build`, `Topology.build_eq_error`: which topologies have a device.
* `Topology.linked_build`: the linked nodes of the device.
-/

namespace CouplingMap.Topology

variable {n rows cols layers : UInt32} {t : Topology} {d : Device} {a b m : Node}
  {i j r c l r' c' l' : Nat}

/-! ## Nodes -/

theorem ofNat_inj (hi : i < UInt32.size) (hj : j < UInt32.size) :
    UInt32.ofNat i = UInt32.ofNat j ↔ i = j := by
  rw [← UInt32.toNat_inj, UInt32.toNat_ofNat_of_lt' hi, UInt32.toNat_ofNat_of_lt' hj]

theorem lt_size (hi : i < n.toNat) : i < UInt32.size := hi.trans n.toNat_lt

theorem fullNode_inj (hi : i < n.toNat) (hj : j < n.toNat) : fullNode i = fullNode j ↔ i = j := by
  rw [fullNode, fullNode, Node.mk.injEq, and_iff_right rfl, Coordinates.one.injEq,
    ofNat_inj (lt_size hi) (lt_size hj)]

theorem ringNode_inj (hi : i < n.toNat) (hj : j < n.toNat) : ringNode i = ringNode j ↔ i = j := by
  rw [ringNode, ringNode, Node.mk.injEq, and_iff_right rfl, Coordinates.one.injEq,
    ofNat_inj (lt_size hi) (lt_size hj)]

/-- A position lies within the sizes of a grid. -/
def Within (rows cols layers : UInt32) (p : Nat × Nat × Nat) : Prop :=
  p.1 < rows.toNat ∧ p.2.1 < cols.toNat ∧ p.2.2 < layers.toNat

theorem gridNode_inj (h : Within rows cols layers (r, c, l))
    (h' : Within rows cols layers (r', c', l')) :
    gridNode r c l = gridNode r' c' l' ↔ (r, c, l) = (r', c', l') := by
  obtain ⟨hr, hc, hl⟩ := h
  obtain ⟨hr', hc', hl'⟩ := h'
  rw [gridNode, gridNode, Node.mk.injEq, and_iff_right rfl, Coordinates.three.injEq,
    ofNat_inj (lt_size hr) (lt_size hr'), ofNat_inj (lt_size hc) (lt_size hc'),
    ofNat_inj (lt_size hl) (lt_size hl'), Prod.mk.injEq, Prod.mk.injEq]

theorem mem_nodes_full : m ∈ (full n).nodes ↔ ∃ i < n.toNat, fullNode i = m := by
  simp [nodes]

theorem mem_nodes_ring : m ∈ (ring n).nodes ↔ ∃ i < n.toNat, ringNode i = m := by
  simp [nodes]

theorem mem_nodes_grid : m ∈ (grid rows cols layers).nodes ↔
    ∃ r c l, Within rows cols layers (r, c, l) ∧ gridNode r c l = m := by
  simp [nodes, Within, mem_gridPositions]

/-- No position is listed twice. -/
theorem gridPositions_nodup (rows cols layers : Nat) : (gridPositions rows cols layers).Nodup := by
  unfold gridPositions
  split
  · exact .nil
  · refine List.nodup_flatMap.2 ⟨fun l _ => List.nodup_flatMap.2 ⟨fun r _ => ?_, ?_⟩, ?_⟩
    · exact List.nodup_range.map fun c c' h => congrArg (·.2.1) h
    · refine List.nodup_range.imp fun {r r'} hne => ?_
      rw [Function.onFun, List.disjoint_left]
      simp only [List.mem_map]
      rintro _ ⟨c, -, rfl⟩ ⟨c', -, h⟩
      exact hne (congrArg Prod.fst h).symm
    · refine List.nodup_range.imp fun {l l'} hne => ?_
      rw [Function.onFun, List.disjoint_left]
      simp only [List.mem_flatMap, List.mem_map]
      rintro _ ⟨r, -, c, -, rfl⟩ ⟨r', -, c', -, h⟩
      exact hne (congrArg (·.2.2) h).symm

/-- No node of a topology is listed twice. -/
theorem nodes_nodup (t : Topology) : t.nodes.Nodup := by
  cases t with
  | full n =>
    refine List.nodup_range.map_on fun i hi j hj => ?_
    exact (fullNode_inj (List.mem_range.1 hi) (List.mem_range.1 hj)).1
  | ring n =>
    refine List.nodup_range.map_on fun i hi j hj => ?_
    exact (ringNode_inj (List.mem_range.1 hi) (List.mem_range.1 hj)).1
  | grid rows cols layers =>
    refine (gridPositions_nodup ..).map_on ?_
    rintro ⟨r, c, l⟩ hp ⟨r', c', l'⟩ hq
    exact (gridNode_inj (mem_gridPositions.1 hp) (mem_gridPositions.1 hq)).1

theorem length_gridPositions (rows cols layers : Nat) :
    (gridPositions rows cols layers).length = rows * cols * layers := by
  unfold gridPositions
  split
  · rename_i h
    rw [h, Nat.zero_mul, List.length_nil]
  · simp [List.length_flatMap, Nat.mul_comm]

theorem toNat_lt_size (n : UInt32) : n.toNat < UInt64.size := n.toNat_lt.trans (by decide)

/-- The nodes of one layer can always be counted. -/
theorem product?_sizes (rows cols : UInt32) :
    product? rows.toNat cols.toNat = some (rows.toNat * cols.toNat) := by
  have hle := Nat.mul_le_mul (Nat.le_pred_of_lt rows.toNat_lt) (Nat.le_pred_of_lt cols.toNat_lt)
  exact if_pos (hle.trans_lt (by decide))

/-- The nodes are counted as long as their number fits 64 bits. -/
theorem nodeCount?_eq (t : Topology) :
    t.nodeCount? = if t.nodes.length < UInt64.size then some t.nodes.length else none := by
  cases t with
  | full n => simp [nodes, nodeCount?, toNat_lt_size n]
  | ring n => simp [nodes, nodeCount?, toNat_lt_size n]
  | grid rows cols layers =>
    rw [nodeCount?, product?_sizes, nodes, List.length_map, length_gridPositions]
    rfl

/-! ## Connections -/

theorem mem_links_full : (a, b) ∈ (full n).links ↔
    ∃ i < n.toNat, ∃ j < n.toNat, i ≠ j ∧ fullNode i = a ∧ fullNode j = b := by
  simp only [links, List.mem_flatMap, List.mem_map, List.mem_filter, List.mem_range,
    decide_eq_true_eq, Prod.mk.injEq]
  grind

theorem mem_links_ring : (a, b) ∈ (ring n).links ↔
    ∃ i < n.toNat, (i + 1) % n.toNat ≠ i ∧ ringNode i = a ∧
      ringNode ((i + 1) % n.toNat) = b := by
  simp only [links, List.mem_map, List.mem_filter, List.mem_range, decide_eq_true_eq,
    Prod.mk.injEq]
  grind

/-- The steps in a grid increase one coordinate by one. -/
def Step (p q : Nat × Nat × Nat) : Prop :=
  q = (p.1, p.2.1 + 1, p.2.2) ∨ q = (p.1 + 1, p.2.1, p.2.2) ∨ q = (p.1, p.2.1, p.2.2 + 1)

theorem mem_gridSteps (h : Within rows cols layers (r, c, l)) :
    (r', c', l') ∈ gridSteps rows.toNat cols.toNat layers.toNat r c l ↔
      Step (r, c, l) (r', c', l') ∧ Within rows cols layers (r', c', l') := by
  simp only [Within] at h
  simp only [gridSteps, Step, Within, List.mem_append, List.mem_ite_nil_right,
    List.mem_singleton, Prod.mk.injEq]
  omega

theorem gridSteps_nodup (rows cols layers r c l : Nat) :
    (gridSteps rows cols layers r c l).Nodup := by
  unfold gridSteps
  split <;> split <;> split <;> simp

theorem mem_links_grid : (a, b) ∈ (grid rows cols layers).links ↔
    ∃ r c l r' c' l', Within rows cols layers (r, c, l) ∧ Within rows cols layers (r', c', l') ∧
      Step (r, c, l) (r', c', l') ∧ gridNode r c l = a ∧ gridNode r' c' l' = b := by
  simp only [links, List.mem_flatMap, List.mem_map, Prod.exists, Prod.mk.injEq]
  constructor
  · rintro ⟨r, c, l, hp, r', c', l', hq, rfl, rfl⟩
    have hp := mem_gridPositions.1 hp
    obtain ⟨hstep, hq⟩ := (mem_gridSteps hp).1 hq
    exact ⟨r, c, l, r', c', l', hp, hq, hstep, rfl, rfl⟩
  · rintro ⟨r, c, l, r', c', l', hp, hq, hstep, rfl, rfl⟩
    exact ⟨r, c, l, mem_gridPositions.2 hp, r', c', l', (mem_gridSteps hp).2 ⟨hstep, hq⟩, rfl, rfl⟩

/-- Pairs of an item and those that follow from it are different if the items have different names
and so do those that follow from one item. -/
theorem nodup_fan {α β γ : Type} {items : List α} {next : α → List β} {name : α → γ} {name' : β → γ}
    (hitems : items.Nodup) (hname : ∀ x ∈ items, ∀ y ∈ items, name x = name y → x = y)
    (hnext : ∀ x ∈ items, ((next x).map name').Nodup) :
    (items.flatMap fun x => (next x).map fun y => (name x, name' y)).Nodup := by
  refine List.nodup_flatMap.2 ⟨fun x hx => ?_, ?_⟩
  · have h := (hnext x hx).map (f := fun b => (name x, b)) fun _ _ h => congrArg Prod.snd h
    rwa [List.map_map] at h
  · refine hitems.imp_of_mem fun {x y} hx hy hne => ?_
    rw [Function.onFun, List.disjoint_left]
    simp only [List.mem_map]
    rintro _ ⟨_, -, rfl⟩ ⟨_, -, h⟩
    exact hne (hname x hx y hy (congrArg Prod.fst h).symm)

/-- No connection of a topology is listed twice. -/
theorem links_nodup (t : Topology) : t.links.Nodup := by
  cases t with
  | full n =>
    have hinj (i : Nat) (hi : i ∈ List.range n.toNat) (j : Nat) (hj : j ∈ List.range n.toNat) :
        fullNode i = fullNode j → i = j :=
      (fullNode_inj (List.mem_range.1 hi) (List.mem_range.1 hj)).1
    refine nodup_fan List.nodup_range hinj fun i _ => (List.nodup_range.filter _).map_on ?_
    exact fun j hj k hk => hinj j (List.mem_of_mem_filter hj) k (List.mem_of_mem_filter hk)
  | ring n =>
    refine (List.nodup_range.filter _).map_on fun i hi j hj h => ?_
    exact (ringNode_inj (List.mem_range.1 (List.mem_of_mem_filter hi))
      (List.mem_range.1 (List.mem_of_mem_filter hj))).1 (congrArg Prod.fst h)
  | grid rows cols layers =>
    have hinj : ∀ p : Nat × Nat × Nat, Within rows cols layers p → ∀ q : Nat × Nat × Nat,
        Within rows cols layers q →
        gridNode p.1 p.2.1 p.2.2 = gridNode q.1 q.2.1 q.2.2 → p = q :=
      fun p hp q hq => (gridNode_inj hp hq).1
    refine nodup_fan (gridPositions_nodup ..) (fun p hp q hq => ?_) fun p hp => ?_
    · exact hinj p (mem_gridPositions.1 hp) q (mem_gridPositions.1 hq)
    · have hwithin {q : Nat × Nat × Nat} (hq : q ∈ gridSteps rows.toNat cols.toNat layers.toNat
          p.1 p.2.1 p.2.2) : Within rows cols layers q :=
        ((mem_gridSteps (mem_gridPositions.1 hp)).1 hq).2
      exact (gridSteps_nodup ..).map_on fun q hq q' hq' => hinj q (hwithin hq) q' (hwithin hq')

/-- A connection of a topology joins two different nodes of it. -/
theorem ends_mem_nodes (h : (a, b) ∈ t.links) : a ∈ t.nodes ∧ b ∈ t.nodes ∧ a ≠ b := by
  cases t with
  | full n =>
    obtain ⟨i, hi, j, hj, hne, rfl, rfl⟩ := mem_links_full.1 h
    exact ⟨mem_nodes_full.2 ⟨i, hi, rfl⟩, mem_nodes_full.2 ⟨j, hj, rfl⟩,
      (fullNode_inj hi hj).not.2 hne⟩
  | ring n =>
    obtain ⟨i, hi, hne, rfl, rfl⟩ := mem_links_ring.1 h
    have hnext : (i + 1) % n.toNat < n.toNat := Nat.mod_lt _ (Nat.zero_lt_of_lt hi)
    exact ⟨mem_nodes_ring.2 ⟨i, hi, rfl⟩, mem_nodes_ring.2 ⟨_, hnext, rfl⟩,
      (ringNode_inj hi hnext).not.2 hne.symm⟩
  | grid rows cols layers =>
    obtain ⟨r, c, l, r', c', l', hp, hq, hstep, rfl, rfl⟩ := mem_links_grid.1 h
    refine ⟨mem_nodes_grid.2 ⟨r, c, l, hp, rfl⟩, mem_nodes_grid.2 ⟨r', c', l', hq, rfl⟩, ?_⟩
    rw [Ne, gridNode_inj hp hq]
    rintro heq
    simp only [Step, Prod.mk.injEq] at hstep heq
    omega

/-! ## The device -/

/-- The nodes and connections of a topology fit together. -/
theorem fitting (t : Topology) :
    Device.Fitting t.nodes (t.links.map Device.unweighted) := by
  refine ⟨t.nodes_nodup, List.forall_mem_map.2 fun ⟨a, b⟩ h => ?_, ?_⟩
  · obtain ⟨ha, hb, hne⟩ := ends_mem_nodes h
    exact ⟨ha, hb, hne, (by decide : Device.defaultWeight.isFinite = true)⟩
  · have hends : Connection.ends ∘ Device.unweighted = id := rfl
    rw [List.map_map, hends, List.map_id]
    exact t.links_nodup

/-- A topology whose nodes can be counted has a device with its nodes and connections. -/
theorem exists_build (h : t.nodes.length < UInt64.size) : ∃ d, t.build = .ok d ∧
    d.nodes = t.nodes ∧ d.connections = t.links.map Device.unweighted := by
  refine ⟨Device.ofFitting _ _ t.fitting, ?_, Device.nodes_ofFitting ..,
    Device.connections_ofFitting ..⟩
  have hparts : Device.ofParts t.nodes (t.links.map Device.unweighted) =
      .ok (Device.ofFitting _ _ t.fitting) := dif_pos t.fitting
  rw [build, nodeCount?_eq, if_pos h, hparts]
  rfl

/-- Other topologies have none. -/
theorem build_eq_error (h : ¬ t.nodes.length < UInt64.size) :
    t.build = .error (.topology (.tooManyNodes t)) := by
  rw [build, nodeCount?_eq, if_neg h]

theorem length_lt_of_build (h : t.build = .ok d) : t.nodes.length < UInt64.size := by
  by_contra hlength
  rw [build_eq_error hlength] at h
  contradiction

/-- The device of a topology has its nodes and connections, in order. -/
theorem lists_of_build (h : t.build = .ok d) :
    d.nodes = t.nodes ∧ d.connections = t.links.map Device.unweighted := by
  obtain ⟨e, he, hlists⟩ := exists_build (length_lt_of_build h)
  obtain rfl := Except.ok.inj (he.symm.trans h)
  exact hlists

/-- Nodes are linked on the device if the topology connects them in some direction. -/
theorem linked_build (h : t.build = .ok d) :
    d.linked a b = true ↔ (a, b) ∈ t.links ∨ (b, a) ∈ t.links := by
  simp only [Device.linked_iff, (lists_of_build h).2, List.mem_map, Prod.exists,
    Device.unweighted, Connection.joins_iff]
  grind

end CouplingMap.Topology
