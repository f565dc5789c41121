import CouplingMap.Device.Distance
import CouplingMap.Proofs.Device.Shape
import CouplingMap.Proofs.Graph.BreadthFirst

/-!
# Distances are those of shortest walks

Hop counts belong to positions. Since the undirected graph is the shape, numbered, they are the
numbers of hops of shortest walks between the nodes at these positions.

* `Device.apart_hops`: the hop counts between two positions.
* `Device.allDistances_nodeAt`, `Device.fingerprint_nodeAt`, `Device.distance_nodeAt`: the answers
  for nodes of the device.
* `Device.distances_exact`: the hop counts from a node are exact, the fingerprint and the distances
  are taken from them, and distances are symmetric and obey the triangle inequality.
-/

namespace CouplingMap.Device

open CouplingMap.Graph

variable {d : Device} {a b c : Node} {k l : Nat}

/-! ## Positions -/

/-- The hop counts from a position. -/
def hops (d : Device) (i : Fin d.size) : Ledger (Option Nat) d.size := hopsFrom (lookup d.table) i

/-- The hop count of two positions is that of their nodes. -/
theorem apart_hops (d : Device) (i j : Fin d.size) :
    Apart d.shape (d.nodeAt i) (d.nodeAt j) (d.hops i)[j] := by
  have h : Apart d.undirected.shape i j (d.hops i)[j] := apart_hopsFrom fun u w => mem_lookup_table
  rw [← comap_nodeAt] at h
  exact h.of_comap nodeAt_injective fun a b hab => mem_range_nodeAt.2 (mem_nodes_of_adj hab)

theorem hops_comm (d : Device) (i j : Fin d.size) : (d.hops i)[j] = (d.hops j)[i] :=
  (d.apart_hops i j).unique (d.apart_hops j i).symm

theorem hops_self (d : Device) (i : Fin d.size) : (d.hops i)[i] = some 0 :=
  (d.apart_hops i i).unique (.self d.shape _)

theorem hops_lt {i j : Fin d.size} (h : (d.hops i)[j] = some k) : k < d.size := hopsFrom_lt h

theorem allDistances_nodeAt (d : Device) (i : Fin d.size) :
    d.allDistances (d.nodeAt i) = .ok (d.hops i).toList := by
  rw [allDistances, position_nodeAt]
  rfl

theorem fingerprint_nodeAt (d : Device) (i : Fin d.size) :
    d.fingerprint (d.nodeAt i) = .ok ((d.hops i).toList.eraseIdx i) := by
  rw [fingerprint, position_nodeAt]
  rfl

/-- The distance is the hop count, also of a node to itself. -/
theorem distance_nodeAt (d : Device) (i j : Fin d.size) : d.distance (d.nodeAt i) (d.nodeAt j) =
    (d.hops i)[j].elim (.error (.unreachable (d.nodeAt i) (d.nodeAt j))) .ok := by
  rw [distance, position_nodeAt, position_nodeAt]
  show (if i = j then _ else _) = _
  split
  · rename_i heq
    subst heq
    rw [(d.apart_hops i i).unique (.self d.shape _)]
    rfl
  · unfold hops
    cases (hopsFrom (lookup d.table) i)[j] <;> rfl

/-- The distance between two positions is their hop count. -/
theorem distance_nodeAt_eq_ok {i j : Fin d.size} :
    d.distance (d.nodeAt i) (d.nodeAt j) = .ok k ↔ (d.hops i)[j] = some k := by
  rw [distance_nodeAt]
  cases (d.hops i)[j] <;> simp

/-! ## Nodes -/

theorem distance_of_notMem_left (ha : a ∉ d.nodes) (b : Node) :
    d.distance a b = .error (.nodeNotFound a) := by
  rw [distance, position_eq_error ha]
  rfl

theorem distance_of_notMem_right (ha : a ∈ d.nodes) (hb : b ∉ d.nodes) :
    d.distance a b = .error (.nodeNotFound b) := by
  obtain ⟨i, rfl⟩ := exists_nodeAt ha
  rw [distance, position_nodeAt, position_eq_error hb]
  rfl

/-- A distance is the number of hops of a shortest walk between nodes of the device. -/
theorem distance_eq_ok : d.distance a b = .ok k ↔
    a ∈ d.nodes ∧ b ∈ d.nodes ∧ Apart d.shape a b (some k) := by
  by_cases ha : a ∈ d.nodes
  · by_cases hb : b ∈ d.nodes
    · obtain ⟨i, rfl⟩ := exists_nodeAt ha
      obtain ⟨j, rfl⟩ := exists_nodeAt hb
      have hapart := d.apart_hops i j
      rw [distance_nodeAt]
      constructor
      · intro h
        cases ho : (d.hops i)[j] with
        | none =>
          rw [ho] at h
          contradiction
        | some l =>
          rw [ho] at h hapart
          obtain rfl := Except.ok.inj h
          exact ⟨ha, hb, hapart⟩
      · rintro ⟨-, -, h⟩
        rw [hapart.unique h]
        rfl
    · simp [distance_of_notMem_right ha hb, hb]
  · simp [distance_of_notMem_left ha b, ha]

/-- It does not matter which of two nodes comes first. -/
theorem distance_comm (d : Device) (a b : Node) :
    (d.distance a b).toOption = (d.distance b a).toOption := by
  have hiff (k : Nat) : d.distance a b = .ok k ↔ d.distance b a = .ok k := by
    rw [distance_eq_ok, distance_eq_ok]
    constructor
    · rintro ⟨ha, hb, h⟩
      exact ⟨hb, ha, h.symm⟩
    · rintro ⟨hb, ha, h⟩
      exact ⟨ha, hb, h.symm⟩
  cases h : d.distance a b with
  | ok k => rw [(hiff k).1 h]
  | error e =>
    cases h' : d.distance b a with
    | ok k =>
      rw [(hiff k).2 h'] at h
      contradiction
    | error e' => rfl

/-- Two ways make a way, which is no shorter than the shortest. -/
theorem distance_triangle (h : d.distance a b = .ok k) (h' : d.distance b c = .ok l) :
    ∃ m ≤ k + l, d.distance a c = .ok m := by
  obtain ⟨ha, -, hab⟩ := distance_eq_ok.1 h
  obtain ⟨-, hc, hbc⟩ := distance_eq_ok.1 h'
  have hreach := hab.reachable.trans hbc.reachable
  obtain ⟨i, rfl⟩ := exists_nodeAt ha
  obtain ⟨j, rfl⟩ := exists_nodeAt hc
  have hac := d.apart_hops i j
  cases ho : (d.hops i)[j] with
  | none =>
    rw [ho] at hac
    exact absurd hreach hac
  | some m =>
    rw [ho] at hac
    exact ⟨m, hab.le_add hbc hac, distance_eq_ok.2 ⟨ha, hc, hac⟩⟩

/-- The hop counts from a node are listed in node order: a number is that of the hops of a shortest
walk, and there is none just for a node that no walk leads to. The fingerprint is the list without
the entry of the node itself, and the distance to a node is the entry of that node. Questions on
absent nodes are refused, with the first absent node. Distances are symmetric and obey the triangle
inequality. -/
theorem distances_exact (d : Device) (a : Node) :
    (a ∉ d.nodes → d.allDistances a = .error (.nodeNotFound a) ∧
      d.fingerprint a = .error (.nodeNotFound a) ∧
      ∀ b, d.distance a b = .error (.nodeNotFound a)) ∧
    (a ∈ d.nodes → ∃ hops, d.allDistances a = .ok hops ∧ hops.length = d.nodes.length ∧
      d.fingerprint a = .ok (hops.eraseIdx (d.nodes.idxOf a)) ∧
      (∀ (i : Nat) b, d.nodes[i]? = some b →
        (∀ k, hops[i]? = some (some k) ↔ (∃ q : d.shape.Walk a b, q.length = k) ∧
          ∀ q : d.shape.Walk a b, k ≤ q.length) ∧
        (hops[i]? = some none ↔ ¬ d.shape.Reachable a b) ∧
        ∀ o : Option Nat, hops[i]? = some o →
          d.distance a b = o.elim (.error (.unreachable a b)) .ok) ∧
      ∀ b, b ∉ d.nodes → d.distance a b = .error (.nodeNotFound b)) ∧
    (∀ b, (d.distance a b).toOption = (d.distance b a).toOption) ∧
    ∀ b c k l, d.distance a b = .ok k → d.distance b c = .ok l →
      ∃ m ≤ k + l, d.distance a c = .ok m := by
  refine ⟨fun ha => ⟨?_, ?_, distance_of_notMem_left ha⟩, fun ha => ?_, d.distance_comm a,
    fun b c k l => distance_triangle⟩
  · rw [allDistances, position_eq_error ha]
    rfl
  · rw [fingerprint, position_eq_error ha]
    rfl
  · have hright (b : Node) : b ∉ d.nodes → d.distance a b = .error (.nodeNotFound b) :=
      distance_of_notMem_right ha
    obtain ⟨i, rfl⟩ := exists_nodeAt ha
    refine ⟨(d.hops i).toList, d.allDistances_nodeAt i, ?_, ?_, fun k b hb => ?_, hright⟩
    · rw [Ledger.length_toList, length_nodes]
    · rw [fingerprint_nodeAt, idxOf_nodeAt]
    · obtain ⟨j, rfl⟩ := exists_nodeAt (List.mem_of_getElem? hb)
      obtain rfl : k = j := (List.getElem?_inj (List.getElem?_eq_some_iff.1 hb).1
        d.nodes_nodup).1 (hb.trans (d.getElem?_nodes j).symm)
      have hiff (o : Option Nat) : (d.hops i).toList[(j : Nat)]? = some o ↔
          Apart d.shape (d.nodeAt i) (d.nodeAt j) o := by
        rw [Ledger.getElem?_toList, Option.some.injEq]
        exact ⟨fun h => h ▸ d.apart_hops i j, (d.apart_hops i j).unique⟩
      refine ⟨fun k => hiff (some k), hiff none, fun o ho => ?_⟩
      rw [Ledger.getElem?_toList, Option.some.injEq] at ho
      rw [distance_nodeAt, ho]

end CouplingMap.Device
