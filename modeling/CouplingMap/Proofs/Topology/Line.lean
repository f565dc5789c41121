import CouplingMap.Proofs.Device.LineSearch
import CouplingMap.Proofs.Device.Stretch
import CouplingMap.Proofs.Topology.Distance

/-!
# Lines on rings and complete devices

Rings and complete devices serve every request that they have room for. Around a ring lines are
taken along the node order, since a node has the edge to the next one before the edge to the one
before it. On a complete device all choices of nodes are lines.

* `Graph.head?_neighbours`: the first neighbour if the edges are in the order of where they start.
* `Topology.leads_ring`: the search goes around a ring in node order.
* `Topology.lines_served`: the lines of rings and complete devices.
-/

namespace CouplingMap

/-! ## Edges -/

namespace Graph

variable {n : Nat} {g : Graph n} {ps before after : List (Fin n × Fin n)} {e : Fin n × Fin n}
  {a b : Fin n}

theorem mem_laid_join (h : e ∈ (g.join a b).laid) : e ∈ g.laid ∨ e = (a, b) := by
  unfold join at h
  split at h
  · exact (List.mem_cons.1 h).symm
  · exact .inl h

theorem laid_subset_join (g : Graph n) (a b : Fin n) : g.laid ⊆ (g.join a b).laid := by
  unfold join
  split
  · exact List.subset_cons_self ..
  · exact fun _ he => he

/-- The edges that are laid are edges that were to be laid. -/
theorem mem_laid_foldl_join (h : e ∈ (ps.foldl (fun g p => g.join p.1 p.2) g).laid) :
    e ∈ g.laid ∨ e ∈ ps := by
  induction ps generalizing g with
  | nil => exact .inl h
  | cons p ps ih =>
    rcases ih h with h | h
    · refine (mem_laid_join h).imp_right ?_
      rintro rfl
      exact List.mem_cons_self
    · exact .inr (List.mem_cons_of_mem _ h)

theorem laid_subset_foldl_join (ps : List (Fin n × Fin n)) (g : Graph n) :
    g.laid ⊆ (ps.foldl (fun g p => g.join p.1 p.2) g).laid := by
  induction ps generalizing g with
  | nil => exact fun _ he => he
  | cons p ps ih => exact fun _ he => ih _ (g.laid_subset_join p.1 p.2 he)

/-- An edge is laid in its orientation unless it comes after the other one. -/
theorem mem_laid_of_append (hne : a ≠ b) (h : (b, a) ∉ before) :
    (a, b) ∈ ((before ++ (a, b) :: after).foldl (fun g p => g.join p.1 p.2) (empty n)).laid := by
  rw [List.foldl_append, List.foldl_cons]
  refine laid_subset_foldl_join after _ ?_
  unfold join
  split
  · exact List.mem_cons_self
  · -- If the ends are joined already, then only by the same edge.
    rename_i hjoined
    rw [not_and_not_right] at hjoined
    refine (hjoined hne).resolve_right fun hlaid => h ?_
    exact (mem_laid_foldl_join hlaid).resolve_left List.not_mem_nil

/-- The search first goes along an edge that starts at a vertex. -/
theorem head?_neighbours_of_laid (h : (a, b) ∈ g.laid) (honly : ∀ e ∈ g.laid, e.1 = a → e.2 = b) :
    (g.neighbours a).head? = some b := by
  have hstart : (a, b) ∈ g.laid.filter fun e => e.1 = a :=
    List.mem_filter.2 ⟨h, decide_eq_true rfl⟩
  rw [neighbours]
  cases hes : g.laid.filter fun e => e.1 = a with
  | nil => exact absurd (hes ▸ hstart) List.not_mem_nil
  | cons e es =>
    obtain ⟨he, hea⟩ := List.mem_filter.1 (hes.symm ▸ List.mem_cons_self : e ∈ g.laid.filter _)
    rw [List.map_cons, honly e he (of_decide_eq_true hea)]
    rfl

/-- If the edges are in the order of where they start, then the search first goes along the edge
that starts at a vertex, as long as it leads to a greater one. -/
theorem head?_neighbours (hsorted : ps.Pairwise fun e f => e.1 < f.1) (h : (a, b) ∈ ps)
    (hlt : a < b) :
    ((ps.foldl (fun g p => g.join p.1 p.2) (empty n)).neighbours a).head? = some b := by
  have hstarts : (ps.map Prod.fst).Nodup := List.pairwise_map.2 (hsorted.imp ne_of_lt)
  refine head?_neighbours_of_laid ?_ fun e he hea => ?_
  · -- The edge back starts at the greater vertex, so it comes later.
    obtain ⟨before, after, rfl⟩ := List.append_of_mem h
    refine mem_laid_of_append hlt.ne fun hback => ?_
    exact hlt.asymm ((List.pairwise_append.1 hsorted).2.2 _ hback _ List.mem_cons_self)
  · have he := (mem_laid_foldl_join he).resolve_left List.not_mem_nil
    exact congrArg Prod.snd (List.inj_on_of_nodup_map hstarts he h hea)

end Graph

/-! ## Requests -/

namespace Device

variable {d : Device} {lengths order : List Nat} {lines : List (List Node)}

/-- A request is served if its lines are simple paths of the device that share no node and have the
lengths that were asked for. -/
structure Serves (d : Device) (lengths order : List Nat) (lines : List (List Node)) : Prop where
  lines_eq : d.lines lengths = .ok lines
  length_eq : lines.map List.length = order
  isLine : ∀ line ∈ lines, d.IsLine line
  disjoint : lines.Pairwise List.Disjoint

/-- A request is served if there are as many lines as lengths. -/
theorem serves_of_length_eq (hroom : lengths.sum ≤ d.size)
    (hlines : (linesFrom (descending lengths) d.table (.replicate d.size false)).map
      (List.map d.nodeAt) = lines)
    (hlength : lines.length = (descending lengths).length) :
    d.Serves lengths (descending lengths) lines := by
  subst hlines
  refine ⟨(d.lines_eq lengths).trans (if_neg (Nat.not_lt.2 hroom)), ?_, fun line hline => ?_, ?_⟩
  · -- The lengths of the lines are some of those wanted, so they are all of them.
    have hsome := length_linesFrom (descending lengths) d.table (.replicate d.size false)
    rw [List.length_map] at hlength
    have hall := hsome.eq_of_length ((List.length_map _).trans hlength)
    rw [List.map_map]
    exact (List.map_congr_left fun path _ => List.length_map _).trans hall
  · obtain ⟨path, hpath, rfl⟩ := List.mem_map.1 hline
    exact isLine_of_route (route_of_mem_linesFrom hpath)
  · refine List.pairwise_map.2 ((pairwise_linesFrom ..).imp fun h => ?_)
    exact List.disjoint_map nodeAt_injective h

/-- On a device on which all choices of nodes are lines, all requests are served that it has room
for. -/
theorem exists_serves (hroom : lengths.sum ≤ d.size)
    (hline : ∀ ns : List Node, ns.Nodup → (∀ n ∈ ns, n ∈ d.nodes) → d.IsLine ns) :
    ∃ lines, d.Serves lengths (descending lengths) lines := by
  have hgreedy := greedy_linesFrom (t := d.table) (descending lengths) (fun _ _ _ _ => Iff.rfl)
    d.freeAfter_nil
  have hsum : ([] : List (List Node)).flatten.length + (descending lengths).sum ≤ d.size := by
    rw [List.flatten_nil, List.length_nil, Nat.zero_add, (descending_perm lengths).sum_eq]
    exact hroom
  -- Each length is served as often as it is asked for.
  have hperm := List.perm_iff_count.2 fun k =>
    hgreedy.count_length_of_isLine hsum fun ns hnodup hmem _ => hline ns hnodup hmem
  exact ⟨_, serves_of_length_eq hroom rfl ((List.length_map _).symm.trans hperm.length_eq)⟩

end Device

namespace Topology

variable {n : UInt32} {d : Device}

/-! ## Rings -/

theorem nodeAt_ring (h : (ring n).build = .ok d) (i : Fin d.size) :
    (i : Nat) < n.toNat ∧ d.nodeAt i = ringNode i := by
  have hi := d.getElem?_nodes i
  rw [(lists_of_build h).1, nodes, Fin.getElem?_fin, List.getElem?_map,
    Option.map_eq_some_iff] at hi
  obtain ⟨k, hk, hnode⟩ := hi
  obtain ⟨hlt, rfl⟩ := List.getElem?_eq_some_iff.1 hk
  rw [List.getElem_range] at hnode
  exact ⟨by simpa using hlt, hnode.symm⟩

/-- The connections of a ring are in the order of where they start. -/
theorem pairwise_endPlaces (h : (ring n).build = .ok d) :
    (d.connections.filterMap d.endPlaces?).Pairwise fun e f => e.1 < f.1 := by
  have hstart {i k : Nat} (hi : i ∈ List.range n.toNat) {e : Fin d.size × Fin d.size}
      (he : d.endPlaces? (Device.unweighted (ringNode i, ringNode k)) = some e) :
      (e.1 : Nat) = i := by
    have hends := (Connection.joins_iff.1 (Device.endPlaces?_eq_some.1 he)).1
    obtain ⟨hlt, hnode⟩ := nodeAt_ring h e.1
    rw [hnode] at hends
    exact ((ringNode_inj (List.mem_range.1 hi) hlt).1 hends).symm
  rw [(lists_of_build h).2, List.pairwise_filterMap, List.pairwise_map, links, List.pairwise_map]
  refine (List.pairwise_lt_range.filter _).imp_of_mem fun {i j} hi hj hlt e he f hf => ?_
  rw [Fin.lt_def, hstart (List.mem_of_mem_filter hi) he, hstart (List.mem_of_mem_filter hj) hf]
  exact hlt

/-- The search goes around a ring in node order. -/
theorem leads_ring (h : (ring n).build = .ok d) : d.Leads := by
  intro i j hj
  obtain ⟨hi, hnode⟩ := nodeAt_ring h i
  obtain ⟨hjn, hnext⟩ := nodeAt_ring h j
  have hmod : (i + 1) % n.toNat = j := by rw [hj, Nat.mod_eq_of_lt (hj ▸ hjn)]
  have hlink : (ringNode i, ringNode j) ∈ (ring n).links :=
    mem_links_ring.2 ⟨i, hi, by omega, rfl, congrArg ringNode hmod⟩
  rw [Device.table, Graph.lookup_table, Device.undirected_eq]
  refine Graph.head?_neighbours (pairwise_endPlaces h) ?_ (Fin.lt_def.2 (by omega))
  rw [(lists_of_build h).2]
  refine List.mem_filterMap.2 ⟨_, List.mem_map_of_mem hlink, Device.endPlaces?_eq_some.2 ?_⟩
  rw [hnode, hnext]
  exact Connection.joins_iff.2 ⟨rfl, rfl⟩

/-! ## Complete devices -/

/-- On a complete device all choices of nodes are lines. -/
theorem isLine_full (h : (full n).build = .ok d) {ns : List Node} (hnodup : ns.Nodup)
    (hmem : ∀ m ∈ ns, m ∈ d.nodes) : d.IsLine ns := by
  refine ⟨hnodup, hmem, (hnodup.imp_of_mem fun {a b} ha hb hne => ?_).isChain⟩
  obtain ⟨i, rfl⟩ := ((measures_full h).mem_nodes a).1 (hmem a ha)
  obtain ⟨j, rfl⟩ := ((measures_full h).mem_nodes b).1 (hmem b hb)
  exact (adj_full h).2 fun heq => hne (heq ▸ rfl)

/-! ## The lines -/

/-- A topology with as many nodes as a word tells has a device of that size. -/
theorem exists_size {t : Topology} (h : t.nodes.length = n.toNat) :
    ∃ d, t.build = .ok d ∧ d.size = n.toNat := by
  obtain ⟨d, hd, hnodes, -⟩ := exists_build (h ▸ toNat_lt_size n)
  exact ⟨d, hd, by rw [← d.length_nodes, hnodes, h]⟩

/-- A ring and a complete device serve every request that they have room for. Each of them finds a
line for each length, the longest one first, and the lines of a ring are runs of nodes, one after
another. -/
theorem lines_served (n : UInt32) (lengths : List Nat) (hroom : lengths.sum ≤ n.toNat) :
    ∃ order, order.Perm lengths ∧ order.Pairwise (· ≥ ·) ∧
      (∃ d, (ring n).build = .ok d ∧ d.Serves lengths order (order.mapIdx fun k length =>
        (List.range' (order.take k).sum length).map ringNode)) ∧
      ∃ d, (full n).build = .ok d ∧ ∃ lines, d.Serves lengths order lines := by
  refine ⟨_, Device.descending_perm lengths, Device.pairwise_descending lengths, ?_, ?_⟩
  · obtain ⟨d, h, hsize⟩ := exists_size (n := n) (t := ring n) (by simp [nodes])
    have hsum : (Device.descending lengths).sum ≤ d.size := by
      rw [(Device.descending_perm lengths).sum_eq, hsize]
      exact hroom
    refine ⟨d, h, Device.serves_of_length_eq (hsize ▸ hroom) ?_ List.length_mapIdx⟩
    exact (leads_ring h).map_linesFrom (fun i => (nodeAt_ring h i).2) hsum
  · obtain ⟨d, h, hsize⟩ := exists_size (n := n) (t := full n) (by simp [nodes])
    exact ⟨d, h, Device.exists_serves (hsize ▸ hroom) fun ns => isLine_full h⟩

theorem lines_served_six : [2, 3].sum ≤ (6 : UInt32).toNat ∧
    ∃ order, order.Perm [2, 3] ∧ order.Pairwise (· ≥ ·) ∧
      (∃ d, (ring 6).build = .ok d ∧ d.Serves [2, 3] order (order.mapIdx fun k length =>
        (List.range' (order.take k).sum length).map ringNode)) ∧
      ∃ d, (full 6).build = .ok d ∧ ∃ lines, d.Serves [2, 3] order lines :=
  ⟨by decide, lines_served 6 [2, 3] (by decide)⟩

end Topology

end CouplingMap
