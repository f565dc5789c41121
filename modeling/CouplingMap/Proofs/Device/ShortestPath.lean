import CouplingMap.Proofs.Device.Distance
import CouplingMap.Proofs.Device.Line
import CouplingMap.Proofs.Graph.ShortestPath

/-!
# Shortest paths have the length of the distance

A path between two nodes and their distance come from two searches. Both see the same hop counts, so
that they fail alike, and otherwise the path has as many hops as the distance says.

* `Device.shortestPath_nodeAt_of_none`, `Device.exists_shortestPath_nodeAt`: the path between two
  positions.
* `Device.shortestPath_exact`: the path between two nodes.
-/

namespace CouplingMap.Device

open CouplingMap.Graph

variable {d : Device} {a b : Node} {k : Nat}

/-! ## Positions -/

theorem shortestPath_nodeAt (d : Device) (i j : Fin d.size) :
    d.shortestPath (d.nodeAt i) (d.nodeAt j) =
      (pathTo? (searchFor (lookup d.table) i j) j).elim
        (.error (.unreachable (d.nodeAt i) (d.nodeAt j))) fun path => .ok (path.map d.nodeAt) := by
  rw [shortestPath_eq, position_nodeAt, position_nodeAt]
  rfl

/-- There is no path without a hop count. -/
theorem shortestPath_nodeAt_of_none {i j : Fin d.size} (h : (d.hops i)[j] = none) :
    d.shortestPath (d.nodeAt i) (d.nodeAt j) = .error (.unreachable (d.nodeAt i) (d.nodeAt j)) := by
  rw [shortestPath_nodeAt, pathTo?_eq_none h]
  rfl

/-- The path between two positions is a simple path with their hop count. -/
theorem exists_shortestPath_nodeAt {i j : Fin d.size} (h : (d.hops i)[j] = some k) :
    ∃ path, d.shortestPath (d.nodeAt i) (d.nodeAt j) = .ok path ∧ d.IsLine path ∧
      path.head? = some (d.nodeAt i) ∧ path.getLast? = some (d.nodeAt j) ∧
      path.length = k + 1 := by
  have hG (u w : Fin d.size) : w ∈ lookup d.table u ↔ (d.shape.comap d.nodeAt).Adj u w := by
    rw [mem_lookup_table, comap_nodeAt]
  obtain ⟨q, hq, hlength, hpath⟩ := exists_pathTo? hG h
  refine ⟨q.support.map d.nodeAt, ?_, ⟨hq.support_nodup.map nodeAt_injective, fun m hm => ?_, ?_⟩,
    ?_, ?_, ?_⟩
  · rw [shortestPath_nodeAt, hpath]
    rfl
  · obtain ⟨v, -, rfl⟩ := List.mem_map.1 hm
    exact nodeAt_mem v
  · exact List.isChain_map _ |>.2 q.isChain_adj_support
  · rw [List.head?_map, List.head?_eq_some_head q.support_ne_nil, q.head_support]
    rfl
  · rw [List.getLast?_map, List.getLast?_eq_some_getLast q.support_ne_nil, q.getLast_support]
    rfl
  · rw [List.length_map, q.length_support, hlength]

/-! ## Nodes -/

theorem shortestPath_of_notMem_left (ha : a ∉ d.nodes) (b : Node) :
    d.shortestPath a b = .error (.nodeNotFound a) := by
  rw [shortestPath, position_eq_error ha]
  rfl

theorem shortestPath_of_notMem_right (ha : a ∈ d.nodes) (hb : b ∉ d.nodes) :
    d.shortestPath a b = .error (.nodeNotFound b) := by
  obtain ⟨i, rfl⟩ := exists_nodeAt ha
  rw [shortestPath, position_nodeAt, position_eq_error hb]
  rfl

/-- There is no path just if there is no distance, for the same reason. -/
theorem shortestPath_eq_error {e : DeviceError} :
    d.shortestPath a b = .error e ↔ d.distance a b = .error e := by
  by_cases ha : a ∈ d.nodes
  · by_cases hb : b ∈ d.nodes
    · obtain ⟨i, rfl⟩ := exists_nodeAt ha
      obtain ⟨j, rfl⟩ := exists_nodeAt hb
      cases h : (d.hops i)[j] with
      | none => simp only [shortestPath_nodeAt_of_none h, distance_nodeAt, h, Option.elim_none,
          Except.error.injEq]
      | some k =>
        obtain ⟨path, hpath, -⟩ := exists_shortestPath_nodeAt h
        rw [hpath, distance_nodeAt_eq_ok.2 h]
        exact ⟨nofun, nofun⟩
    · simp only [shortestPath_of_notMem_right ha hb, distance_of_notMem_right ha hb,
        Except.error.injEq]
  · simp only [shortestPath_of_notMem_left ha, distance_of_notMem_left ha, Except.error.injEq]

/-- Where there is a distance, there is a path with as many hops. -/
theorem exists_shortestPath (h : d.distance a b = .ok k) :
    ∃ path, d.shortestPath a b = .ok path ∧ d.IsLine path ∧ path.head? = some a ∧
      path.getLast? = some b ∧ path.length = k + 1 := by
  obtain ⟨ha, hb, -⟩ := distance_eq_ok.1 h
  obtain ⟨i, rfl⟩ := exists_nodeAt ha
  obtain ⟨j, rfl⟩ := exists_nodeAt hb
  exact exists_shortestPath_nodeAt (distance_nodeAt_eq_ok.1 h)

/-- The path between two nodes fails just as their distance fails. Otherwise it is a simple path of
the device from the first node to the second one, with one more node than the distance, which is the
least number of hops. From a node to itself it is the node alone. -/
theorem shortestPath_exact (d : Device) (a b : Node) :
    (∀ e, d.shortestPath a b = .error e ↔ d.distance a b = .error e) ∧
    (∀ k, d.distance a b = .ok k → (∀ q : d.shape.Walk a b, k ≤ q.length) ∧
      ∃ path, d.shortestPath a b = .ok path ∧ d.IsLine path ∧ path.head? = some a ∧
        path.getLast? = some b ∧ path.length = k + 1) ∧
    (a ∈ d.nodes → d.shortestPath a a = .ok [a]) := by
  refine ⟨fun e => shortestPath_eq_error, fun k hk => ?_, fun ha => ?_⟩
  · obtain ⟨-, -, -, hleast⟩ := distance_eq_ok.1 hk
    exact ⟨hleast, exists_shortestPath hk⟩
  · obtain ⟨path, hpath, -, hhead, -, hlength⟩ :=
      exists_shortestPath (distance_eq_ok.2 ⟨ha, ha, .self d.shape a⟩)
    obtain ⟨n, rfl⟩ := List.length_eq_one_iff.1 hlength
    obtain rfl := Option.some.inj hhead
    exact hpath

end CouplingMap.Device
