import CouplingMap.Proofs.Topology.Build
import CouplingMap.Topology.Identify

/-!
# Topologies are recognised exactly

The names of the nodes allow one topology at most. The sizes of a grid are the least that leave room
for all nodes: if a node sits at each of its positions, they are the sizes of the grid.

* `Topology.sameShape_iff`: two coverings together say that the same nodes are linked.
* `Topology.gridSizes?_eq`: the sizes that the positions of a grid give.
* `Topology.candidate?_eq`: the topology with the nodes of a list is its candidate.
* `Topology.identify_eq_some_iff`: which topology is recognised.
* `Topology.identify_exact`: the answer is exact, it is the topology for the device of a topology, and
  it depends on the nodes and the linked pairs alone.
-/

namespace CouplingMap.Topology

variable {d e : Device} {t : Topology} {ns : List Node} {rows cols layers : UInt32} {m n : Node}

/-! ## The same shape -/

/-- A device covers another one if it links the nodes that are linked there. -/
theorem covered_iff : covered d e = true ↔ ∀ m n, d.linked m n = true → e.linked m n = true := by
  simp only [covered_eq, List.all_eq_true]
  constructor
  · intro h m n hmn
    obtain ⟨c, hc, hjoins⟩ := Device.linked_iff.1 hmn
    simp only [Connection.joins_iff] at hjoins
    rcases hjoins with ⟨rfl, rfl⟩ | ⟨rfl, rfl⟩
    · exact h c hc
    · exact SimpleGraph.Adj.symm (G := e.shape) (h c hc)
  · intro h c hc
    exact h _ _ (Device.linked_iff.2 ⟨c, hc, .inl (Connection.joins_iff.2 ⟨rfl, rfl⟩)⟩)

/-- Devices have the same shape if they have the same nodes and link the same nodes. -/
theorem sameShape_iff : sameShape d e = true ↔
    (∀ n, n ∈ d.nodes ↔ n ∈ e.nodes) ∧ ∀ m n, d.linked m n = e.linked m n := by
  rw [sameShape, Bool.and_eq_true, Bool.and_eq_true, Bool.and_eq_true, nodesIn_iff, nodesIn_iff,
    covered_iff, covered_iff]
  constructor
  · rintro ⟨⟨⟨hde, hed⟩, hlinked⟩, hlinked'⟩
    exact ⟨fun n => ⟨hde n, hed n⟩, fun m n => Bool.eq_iff_iff.2 ⟨hlinked m n, hlinked' m n⟩⟩
  · rintro ⟨hnodes, hlinked⟩
    exact ⟨⟨⟨fun n => (hnodes n).1, fun n => (hnodes n).2⟩, fun m n h => hlinked m n ▸ h⟩,
      fun m n h => hlinked m n ▸ h⟩

/-! ## Candidates -/

theorem commonRegister?_eq (hne : ns ≠ []) {register : String}
    (h : ∀ n ∈ ns, n.register = register) : commonRegister? ns = some register := by
  cases ns with
  | nil => contradiction
  | cons n ns =>
    obtain rfl := h n List.mem_cons_self
    exact if_pos (by simpa using fun m hm => h m (List.mem_cons_of_mem _ hm))

/-- A coordinate below the size of a grid is covered by a size up to it. -/
theorem cover?_eq_some {size bound : UInt32} {i : Nat} (hsize : size.toNat ≤ bound.toNat)
    (hi : i < bound.toNat) : ∃ size', cover? size (UInt32.ofNat i) = some size' ∧
      size.toNat ≤ size'.toNat ∧ i < size'.toNat ∧ size'.toNat ≤ bound.toNat := by
  have hbound : i + 1 < UInt32.size := Nat.lt_of_le_of_lt hi bound.toNat_lt
  have hnat : (UInt32.ofNat i).toNat = i := UInt32.toNat_ofNat_of_lt' (by omega)
  have hsucc : (UInt32.ofNat i + 1).toNat = i + 1 := by
    rw [UInt32.toNat_add, hnat]
    exact Nat.mod_eq_of_lt hbound
  refine ⟨max size (UInt32.ofNat i + 1), if_pos (by omega), ?_⟩
  rw [UInt32.toNat_max, hsucc]
  omega

/-- Sizes that leave room for the nodes of a list, and no more than a grid has. -/
structure Covers (rows cols layers : UInt32) (ns : List Node) (s : UInt32 × UInt32 × UInt32) :
    Prop where
  rows_le : s.1.toNat ≤ rows.toNat
  cols_le : s.2.1.toNat ≤ cols.toNat
  layers_le : s.2.2.toNat ≤ layers.toNat
  room : ∀ r c l, Within rows cols layers (r, c, l) → gridNode r c l ∈ ns →
    Within s.1 s.2.1 s.2.2 (r, c, l)

/-- What each step of a fold keeps, with the items seen, holds of all items in the end. -/
theorem foldlM_eq_some {σ α : Type} {f : σ → α → Option σ} {P : List α → σ → Prop} {xs : List α}
    (hstep : ∀ seen s, ∀ x ∈ xs, P seen s → ∃ s', f s x = some s' ∧ P (seen ++ [x]) s')
    {seen : List α} {s : σ} (h : P seen s) : ∃ s', xs.foldlM f s = some s' ∧ P (seen ++ xs) s' := by
  induction xs generalizing seen s with
  | nil => exact ⟨s, rfl, by rwa [List.append_nil]⟩
  | cons x xs ih =>
    obtain ⟨s', hs', h'⟩ := hstep seen s x List.mem_cons_self h
    obtain ⟨s'', hs'', h''⟩ := ih (fun seen s y hy => hstep seen s y (List.mem_cons_of_mem _ hy)) h'
    refine ⟨s'', ?_, by rwa [List.append_assoc] at h''⟩
    rw [List.foldlM_cons, hs']
    exact hs''

/-- The sizes that are collected leave room for all nodes, and no more than the grid has. -/
theorem exists_gridSizes? (h : ∀ n ∈ ns, n ∈ (grid rows cols layers).nodes) :
    ∃ s, gridSizes? ns = some s ∧ Covers rows cols layers ns s := by
  have hstart : Covers rows cols layers [] (0, 0, 0) :=
    ⟨Nat.zero_le _, Nat.zero_le _, Nat.zero_le _, fun _ _ _ _ => nofun⟩
  refine foldlM_eq_some (fun seen s n hn hs => ?_) hstart
  obtain ⟨a, b, c⟩ := s
  obtain ⟨i, j, k, hp, rfl⟩ := mem_nodes_grid.1 (h n hn)
  obtain ⟨a', hcover, hle, hlt, hbound⟩ := cover?_eq_some hs.rows_le hp.1
  obtain ⟨b', hcover', hle', hlt', hbound'⟩ := cover?_eq_some hs.cols_le hp.2.1
  obtain ⟨c', hcover'', hle'', hlt'', hbound''⟩ := cover?_eq_some hs.layers_le hp.2.2
  refine ⟨(a', b', c'), ?_, hbound, hbound', hbound'', fun r c l hq hmem => ?_⟩
  · simp only [gridNode, hcover, hcover', hcover'']
    rfl
  · rcases List.mem_append.1 hmem with hmem | hmem
    · obtain ⟨hr, hc, hl⟩ := hs.room r c l hq hmem
      exact ⟨hr.trans_le hle, hc.trans_le hle', hl.trans_le hle''⟩
    · have heq := (gridNode_inj hq hp).1 (List.mem_singleton.1 hmem)
      rw [heq]
      exact ⟨hlt, hlt', hlt''⟩

/-- The positions of a grid give its sizes. -/
theorem gridSizes?_eq (hne : (grid rows cols layers).nodes ≠ [])
    (h : ∀ n, n ∈ ns ↔ n ∈ (grid rows cols layers).nodes) :
    gridSizes? ns = some (rows, cols, layers) := by
  obtain ⟨⟨a, b, c⟩, hs, hcovers⟩ := exists_gridSizes? fun n hn => (h n).1 hn
  -- The node at the far corner leaves no other sizes.
  obtain ⟨m, hm⟩ := List.exists_mem_of_ne_nil _ hne
  obtain ⟨i, j, k, hp, -⟩ := mem_nodes_grid.1 hm
  have hcorner : Within rows cols layers (rows.toNat - 1, cols.toNat - 1, layers.toNat - 1) := by
    simp only [Within] at hp ⊢
    omega
  have hroom := hcovers.room _ _ _ hcorner ((h _).2 (mem_nodes_grid.2 ⟨_, _, _, hcorner, rfl⟩))
  have hrows : a.toNat ≤ rows.toNat := hcovers.rows_le
  have hcols : b.toNat ≤ cols.toNat := hcovers.cols_le
  have hlayers : c.toNat ≤ layers.toNat := hcovers.layers_le
  simp only [Within] at hp hroom
  have ha : a = rows := UInt32.toNat_inj.1 (by omega)
  have hb : b = cols := UInt32.toNat_inj.1 (by omega)
  have hc : c = layers := UInt32.toNat_inj.1 (by omega)
  rw [hs, ha, hb, hc]

/-- A topology is the candidate of the lists of its nodes. -/
theorem candidate?_eq (hne : t.nodes ≠ []) (h : ∀ n, n ∈ ns ↔ n ∈ t.nodes)
    (hlength : ns.length = t.nodes.length) (hsize : ns.length < UInt32.size) :
    candidate? ns = some t := by
  have hns : ns ≠ [] := fun e => hne (List.length_eq_zero_iff.1 (by rw [← hlength, e]; rfl))
  have hcommon {register : String} (hregister : ∀ n ∈ t.nodes, n.register = register) :
      commonRegister? ns = some register :=
    commonRegister?_eq hns fun n hn => hregister n ((h n).1 hn)
  unfold candidate?
  cases t with
  | full n =>
    have hregister : ∀ m ∈ (full n).nodes, m.register = fullRegister := by
      intro m hm
      obtain ⟨i, -, rfl⟩ := mem_nodes_full.1 hm
      rfl
    have hn : ns.length = n.toNat := by simpa [nodes] using hlength
    rw [hcommon hregister]
    show (if _ then _ else _) = _
    rw [if_neg (not_le.2 hsize), if_pos rfl, hn, UInt32.ofNat_toNat]
  | ring n =>
    have hregister : ∀ m ∈ (ring n).nodes, m.register = ringRegister := by
      intro m hm
      obtain ⟨i, -, rfl⟩ := mem_nodes_ring.1 hm
      rfl
    have hn : ns.length = n.toNat := by simpa [nodes] using hlength
    rw [hcommon hregister]
    show (if _ then _ else _) = _
    rw [if_neg (not_le.2 hsize), if_neg (by decide), if_pos rfl, hn, UInt32.ofNat_toNat]
  | grid rows cols layers =>
    have hregister : ∀ m ∈ (grid rows cols layers).nodes, m.register = gridRegister := by
      intro m hm
      obtain ⟨r, c, l, -, rfl⟩ := mem_nodes_grid.1 hm
      rfl
    rw [hcommon hregister]
    show (if _ then _ else _) = _
    rw [if_neg (not_le.2 hsize), if_neg (by decide), if_neg (by decide), if_pos rfl,
      gridSizes?_eq hne h]
    rfl

/-- Lists with a candidate have nodes, and few enough. -/
theorem of_candidate?_eq_some (h : candidate? ns = some t) :
    ns ≠ [] ∧ ns.length < UInt32.size := by
  obtain ⟨register, hregister, h⟩ := Option.bind_eq_some_iff.1 h
  constructor
  · rintro rfl
    exact absurd hregister nofun
  · by_contra hsize
    rw [if_pos (not_lt.1 hsize)] at h
    contradiction

/-! ## Recognition -/

/-- A topology is recognised if it has the nodes of the device and its own device links the same
nodes. The device has nodes, and these can be counted with 32 bits. -/
theorem identify_eq_some_iff : identify d = some t ↔
    t.nodes ≠ [] ∧ d.nodes.length < UInt32.size ∧ (∀ n, n ∈ d.nodes ↔ n ∈ t.nodes) ∧
      ∃ canonical, t.build = .ok canonical ∧ ∀ a b, d.linked a b = canonical.linked a b := by
  constructor
  · intro h
    obtain ⟨t', hcandidate, h⟩ := Option.bind_eq_some_iff.1 h
    obtain ⟨hne, hsize⟩ := of_candidate?_eq_some hcandidate
    rw [Option.ite_none_right_eq_some] at h
    obtain ⟨-, h⟩ := h
    split at h
    · rename_i canonical hbuild
      rw [Option.ite_none_right_eq_some] at h
      obtain ⟨hshape, h⟩ := h
      obtain rfl := Option.some.inj h
      obtain ⟨hnodes, hlinked⟩ := sameShape_iff.1 hshape
      rw [(lists_of_build hbuild).1] at hnodes
      obtain ⟨n, hn⟩ := List.exists_mem_of_ne_nil _ hne
      exact ⟨List.ne_nil_of_mem ((hnodes n).1 hn), hsize, hnodes, canonical, hbuild, hlinked⟩
    · contradiction
  · rintro ⟨hne, hsize, hnodes, canonical, hbuild, hlinked⟩
    have hlength : d.nodes.length = t.nodes.length :=
      ((List.perm_ext_iff_of_nodup d.nodes_nodup t.nodes_nodup).2 hnodes).length_eq
    have hcount : t.nodeCount? = some d.size := by
      rw [nodeCount?_eq, if_pos (length_lt_of_build hbuild), ← hlength, d.length_nodes]
    have hshape : sameShape d canonical = true :=
      sameShape_iff.2 ⟨by rwa [(lists_of_build hbuild).1], hlinked⟩
    rw [identify, candidate?_eq hne hnodes hlength hsize]
    show (if _ then _ else _) = _
    rw [if_pos hcount, hbuild]
    exact if_pos hshape

/-- Only the nodes and the linked pairs count. -/
theorem identify_congr (hnodes : ∀ n, n ∈ d.nodes ↔ n ∈ e.nodes)
    (hlinked : ∀ a b, d.linked a b = e.linked a b) : identify d = identify e := by
  have hlength : d.nodes.length = e.nodes.length :=
    ((List.perm_ext_iff_of_nodup d.nodes_nodup e.nodes_nodup).2 hnodes).length_eq
  refine Option.ext fun t => ?_
  rw [identify_eq_some_iff, identify_eq_some_iff]
  simp only [hlength, hnodes, hlinked]

/-- A device is recognised as a topology exactly if it has the nodes of the topology and links those
that the device of the topology links, so the device of a topology is recognised as it. Neither the
order of the nodes nor directions or weights count. -/
theorem identify_exact (d : Device) :
    (∀ t, identify d = some t ↔
      t.nodes ≠ [] ∧ d.nodes.length < UInt32.size ∧ (∀ n, n ∈ d.nodes ↔ n ∈ t.nodes) ∧
        ∃ canonical, t.build = .ok canonical ∧ ∀ a b, d.linked a b = canonical.linked a b) ∧
    (∀ t, t.nodes ≠ [] → t.nodes.length < UInt32.size →
      ∃ canonical, t.build = .ok canonical ∧ identify canonical = some t) ∧
    ∀ e, (∀ n, n ∈ d.nodes ↔ n ∈ e.nodes) → (∀ a b, d.linked a b = e.linked a b) →
      identify d = identify e := by
  refine ⟨fun t => identify_eq_some_iff, fun t hne hsize => ?_, fun e => identify_congr⟩
  obtain ⟨canonical, hbuild, hnodes, -⟩ := exists_build (hsize.trans (by decide))
  refine ⟨canonical, hbuild, identify_eq_some_iff.2 ⟨hne, ?_, fun n => ?_, canonical, hbuild,
    fun _ _ => rfl⟩⟩
  · rwa [hnodes]
  · rw [hnodes]

end CouplingMap.Topology
