import CouplingMap.Proofs.Device.Diameter
import CouplingMap.Proofs.Topology.Build

/-!
# Distances on the devices of topologies

The nodes are named by their coordinates. On these a distance is a potential: no step takes it down
by more than one, and away from the goal some step takes it down by one.

* `Graph.Apart.of_potential`: such a potential counts the hops to its goal.
* `Topology.Measures`: named nodes with such potentials, which are distances.
* `Topology.adj_full`, `Topology.adj_ring`, `Topology.adj_grid`: the links of named nodes.
* `Topology.measures_full`, `Topology.measures_ring`, `Topology.measures_grid`: the potentials.
* `Topology.exists_isDiameter`: the devices of topologies are connected.
* `Topology.distances_closed`: distances and diameters in closed form.
-/

namespace CouplingMap

/-- A potential counts the hops to a goal if it is zero there, no step takes it down by more than
one, and elsewhere some step takes it down by one. -/
theorem Graph.Apart.of_potential {V : Type} {G : SimpleGraph V} {p : V → Nat} {b : V}
    (hgoal : p b = 0) (hstep : ∀ u w, G.Adj u w → p u ≤ p w + 1)
    (hdown : ∀ u, u ≠ b → ∃ w, G.Adj u w ∧ p w + 1 = p u) (a : V) :
    Graph.Apart G a b (some (p a)) := by
  constructor
  · -- The steps that take the potential down make a walk.
    induction h : p a generalizing a with
    | zero =>
      have hab : a = b := by
        by_contra hne
        obtain ⟨w, -, hw⟩ := hdown a hne
        omega
      subst hab
      exact ⟨.nil, rfl⟩
    | succ k ih =>
      obtain ⟨w, hadj, hw⟩ := hdown a fun hab => by
        rw [hab] at h
        omega
      obtain ⟨q, hq⟩ := ih w (by omega)
      exact ⟨.cons hadj q, by rw [SimpleGraph.Walk.length_cons, hq]⟩
  · -- No walk takes it down faster.
    intro q
    induction q with
    | nil => exact hgoal.le
    | cons hadj q ih =>
      have hp := hstep _ _ hadj
      have hq := ih hgoal hdown
      rw [SimpleGraph.Walk.length_cons]
      omega

namespace Topology

open Device CouplingMap.Graph

variable {n rows cols layers : UInt32} {t : Topology} {d : Device} {k : Nat}

/-! ## Named distances -/

/-- The nodes of a device have names, and a number for every two names is a potential towards the
second one. -/
structure Measures {V : Type} (d : Device) (name : V → Node) (dist : V → V → Nat) : Prop where
  injective : name.Injective
  mem_nodes : ∀ m, m ∈ d.nodes ↔ ∃ v, name v = m
  goal : ∀ b, dist b b = 0
  step : ∀ u w b, d.shape.Adj (name u) (name w) → dist u b ≤ dist w b + 1
  down : ∀ u b, u ≠ b → ∃ w, d.shape.Adj (name u) (name w) ∧ dist w b + 1 = dist u b

namespace Measures

variable {V : Type} {name : V → Node} {dist : V → V → Nat} (h : Measures d name dist)

include h

/-- The numbers are the distances. -/
theorem distance (a b : V) : d.distance (name a) (name b) = .ok (dist a b) := by
  have hcomap : Apart (d.shape.comap name) a b (some (dist a b)) :=
    .of_potential (p := fun a => dist a b) (h.goal b) (fun u w => h.step u w b)
      (fun u => h.down u b) a
  refine distance_eq_ok.2 ⟨(h.mem_nodes _).2 ⟨a, rfl⟩, (h.mem_nodes _).2 ⟨b, rfl⟩, ?_⟩
  exact hcomap.of_comap h.injective fun m _ hm => (h.mem_nodes m).1 (mem_nodes_of_adj hm)

/-- The greatest number is the diameter. -/
theorem diameter (hle : ∀ a b, dist a b ≤ k) (a b : V) (hk : dist a b = k) :
    d.diameter = .ok k := by
  refine diameter_eq_ok.2 ⟨fun m hm m' hm' => ?_, _, _, hk ▸ h.distance a b⟩
  obtain ⟨a, rfl⟩ := (h.mem_nodes m).1 hm
  obtain ⟨b, rfl⟩ := (h.mem_nodes m').1 hm'
  exact ⟨_, hle a b, h.distance a b⟩

end Measures

/-- The difference of two coordinates. -/
def gap (i j : Nat) : Nat := ((i : Int) - j).natAbs

/-! ## Complete devices -/

theorem adj_full (h : (full n).build = .ok d) {i j : Fin n.toNat} :
    d.shape.Adj (fullNode i) (fullNode j) ↔ i ≠ j := by
  refine (linked_build h).trans ?_
  simp only [mem_links_full]
  constructor
  · rintro (⟨k, hk, l, hl, hne, hi, hj⟩ | ⟨k, hk, l, hl, hne, hj, hi⟩) rfl
    · exact hne ((fullNode_inj hk hl).1 (hi.trans hj.symm))
    · exact hne ((fullNode_inj hk hl).1 (hj.trans hi.symm))
  · intro hne
    exact .inl ⟨i, i.isLt, j, j.isLt, fun heq => hne (Fin.ext heq), rfl, rfl⟩

/-- On a complete device different nodes are one hop apart. -/
theorem measures_full (h : (full n).build = .ok d) :
    Measures d (fun i : Fin n.toNat => fullNode i) fun i j => if i = j then 0 else 1 where
  injective i j hij := Fin.ext ((fullNode_inj i.isLt j.isLt).1 hij)
  mem_nodes m := by
    rw [(lists_of_build h).1, mem_nodes_full, Fin.exists_iff]
    simp only [exists_prop]
  goal b := if_pos rfl
  step u w b _ := by split <;> omega
  down u b hne := ⟨b, (adj_full h).2 hne, by simp [hne]⟩

/-! ## Rings -/

/-- The steps around a ring. -/
def Turn (n i j : Nat) : Prop := i + 1 = j ∨ i + 1 = n ∧ j = 0

theorem turn_iff {n i j : Nat} (hi : i < n) (hj : j < n) : Turn n i j ↔ (i + 1) % n = j := by
  by_cases hn : i + 1 = n
  · rw [hn, Nat.mod_self, Turn]
    omega
  · rw [Nat.mod_eq_of_lt (by omega), Turn]
    omega

theorem adj_ring (h : (ring n).build = .ok d) {i j : Fin n.toNat} :
    d.shape.Adj (ringNode i) (ringNode j) ↔ i ≠ j ∧ (Turn n.toNat i j ∨ Turn n.toNat j i) := by
  have hlink (i j : Fin n.toNat) :
      (ringNode i, ringNode j) ∈ (ring n).links ↔ i ≠ j ∧ Turn n.toNat i j := by
    rw [mem_links_ring, turn_iff i.isLt j.isLt]
    have hnext {k : Nat} (hk : k < n.toNat) : (k + 1) % n.toNat < n.toNat :=
      Nat.mod_lt _ (Nat.zero_lt_of_lt hk)
    constructor
    · rintro ⟨k, hk, hne, hi, hj⟩
      obtain rfl := (ringNode_inj hk i.isLt).1 hi
      have hj := (ringNode_inj (hnext hk) j.isLt).1 hj
      exact ⟨fun hij => hne (hj.trans (congrArg Fin.val hij).symm), hj⟩
    · rintro ⟨hne, hj⟩
      exact ⟨i, i.isLt, fun hi => hne (Fin.ext (hi.symm.trans hj)), rfl, congrArg ringNode hj⟩
  refine (linked_build h).trans ?_
  rw [hlink, hlink, and_or_left, ne_comm (a := j)]

/-- The length of the shorter way around a ring. -/
def around (n i j : Nat) : Nat := min (gap i j) (n - gap i j)

/-- The first step of the shorter way around a ring. -/
theorem exists_turn {n i j : Nat} (hi : i < n) (hj : j < n) (hne : i ≠ j) :
    ∃ k < n, i ≠ k ∧ (Turn n i k ∨ Turn n k i) ∧ around n k j + 1 = around n i j := by
  simp only [Turn, around, gap]
  -- The shorter way goes forth if the goal is at most half a turn ahead.
  by_cases hforth : i < j ∧ 2 * (j - i) ≤ n ∨ j < i ∧ n < 2 * (i - j)
  · by_cases hlast : i + 1 = n
    · exact ⟨0, by omega, by omega, by omega, by omega⟩
    · exact ⟨i + 1, by omega, by omega, by omega, by omega⟩
  · by_cases hfirst : i = 0
    · exact ⟨n - 1, by omega, by omega, by omega, by omega⟩
    · exact ⟨i - 1, by omega, by omega, by omega, by omega⟩

/-- On a ring the distance is the length of the shorter way around. -/
theorem measures_ring (h : (ring n).build = .ok d) :
    Measures d (fun i : Fin n.toNat => ringNode i) fun i j => around n.toNat i j where
  injective i j hij := Fin.ext ((ringNode_inj i.isLt j.isLt).1 hij)
  mem_nodes m := by
    rw [(lists_of_build h).1, mem_nodes_ring, Fin.exists_iff]
    simp only [exists_prop]
  goal b := by simp [around, gap]
  step u w b hadj := by
    obtain ⟨-, hturn⟩ := (adj_ring h).1 hadj
    simp only [Turn, around, gap] at hturn ⊢
    omega
  down u b hne := by
    obtain ⟨k, hk, huk, hturn, hdown⟩ := exists_turn u.isLt b.isLt fun heq => hne (Fin.ext heq)
    exact ⟨⟨k, hk⟩, (adj_ring h).2 ⟨fun heq => huk (congrArg Fin.val heq), hturn⟩, hdown⟩

/-! ## Grids -/

/-- The positions of a grid. -/
def Position (rows cols layers : UInt32) : Type :=
  { p : Nat × Nat × Nat // Within rows cols layers p }

/-- The node at a position. -/
def nodeOf (p : Position rows cols layers) : Node := gridNode p.1.1 p.1.2.1 p.1.2.2

theorem adj_grid (h : (grid rows cols layers).build = .ok d) {p q : Position rows cols layers} :
    d.shape.Adj (nodeOf p) (nodeOf q) ↔ Step p.1 q.1 ∨ Step q.1 p.1 := by
  have hlink (p q : Position rows cols layers) :
      (nodeOf p, nodeOf q) ∈ (grid rows cols layers).links ↔ Step p.1 q.1 := by
    rw [mem_links_grid]
    constructor
    · rintro ⟨r, c, l, r', c', l', hp, hq, hstep, hp', hq'⟩
      rw [(gridNode_inj hp p.2).1 hp', (gridNode_inj hq q.2).1 hq'] at hstep
      exact hstep
    · intro hstep
      exact ⟨_, _, _, _, _, _, p.2, q.2, hstep, rfl, rfl⟩
  refine (linked_build h).trans ?_
  rw [hlink, hlink]

/-- The number of steps in a grid, row by row, column by column and layer by layer. -/
def steps (p q : Nat × Nat × Nat) : Nat := gap p.1 q.1 + gap p.2.1 q.2.1 + gap p.2.2 q.2.2

/-- A coordinate next to another one, closer to a third. -/
theorem exists_closer {n i j : Nat} (hi : i < n) (hj : j < n) (hne : i ≠ j) :
    ∃ k < n, (k = i + 1 ∨ i = k + 1) ∧ gap k j + 1 = gap i j := by
  simp only [gap]
  by_cases hij : i < j
  · exact ⟨i + 1, by omega, by omega, by omega⟩
  · exact ⟨i - 1, by omega, by omega, by omega⟩

/-- A step towards a position of a grid changes a coordinate in which the positions differ. -/
theorem exists_step {p q : Nat × Nat × Nat} (hp : Within rows cols layers p)
    (hq : Within rows cols layers q) (hne : p ≠ q) :
    ∃ p', Within rows cols layers p' ∧ (Step p p' ∨ Step p' p) ∧ steps p' q + 1 = steps p q := by
  obtain ⟨r, c, l⟩ := p
  obtain ⟨r', c', l'⟩ := q
  simp only [Within, Step, steps, Prod.mk.injEq] at hp hq ⊢
  obtain ⟨hr, hc, hl⟩ := hp
  obtain ⟨hr', hc', hl'⟩ := hq
  by_cases hrow : r = r'
  · by_cases hcol : c = c'
    · have hlayer : l ≠ l' := fun h => hne (by rw [hrow, hcol, h])
      obtain ⟨k, hk, hnext, hgap⟩ := exists_closer hl hl' hlayer
      exact ⟨(r, c, k), ⟨hr, hc, hk⟩, by simpa using hnext, by simp only; omega⟩
    · obtain ⟨k, hk, hnext, hgap⟩ := exists_closer hc hc' hcol
      exact ⟨(r, k, l), ⟨hr, hk, hl⟩, by simpa using hnext, by simp only; omega⟩
  · obtain ⟨k, hk, hnext, hgap⟩ := exists_closer hr hr' hrow
    exact ⟨(k, c, l), ⟨hk, hc, hl⟩, by simpa using hnext, by simp only; omega⟩

/-- On a grid the distance is the number of steps. -/
theorem measures_grid (h : (grid rows cols layers).build = .ok d) :
    Measures d (nodeOf : Position rows cols layers → Node) fun p q => steps p.1 q.1 where
  injective p q hpq := Subtype.ext ((gridNode_inj p.2 q.2).1 hpq)
  mem_nodes m := by
    rw [(lists_of_build h).1, mem_nodes_grid]
    constructor
    · rintro ⟨r, c, l, hp, rfl⟩
      exact ⟨⟨(r, c, l), hp⟩, rfl⟩
    · rintro ⟨p, rfl⟩
      exact ⟨_, _, _, p.2, rfl⟩
  goal b := by simp [steps, gap]
  step u w b hadj := by
    have hstep := (adj_grid h).1 hadj
    simp only [Step, Prod.ext_iff, steps, gap] at hstep ⊢
    omega
  down u b hne := by
    obtain ⟨p, hp, hstep, hdown⟩ := exists_step u.2 b.2 fun heq => hne (Subtype.ext heq)
    exact ⟨⟨p, hp⟩, (adj_grid h).2 hstep, hdown⟩

/-! ## Distances and diameters -/

theorem diameter_full (h : (full n).build = .ok d) (hn : 1 < n.toNat) : d.diameter = .ok 1 := by
  have hle (i j : Fin n.toNat) : (if i = j then 0 else 1) ≤ 1 := by split <;> omega
  exact (measures_full h).diameter hle ⟨0, by omega⟩ ⟨1, hn⟩ (by simp)

theorem diameter_ring (h : (ring n).build = .ok d) (hn : 1 ≤ n.toNat) :
    d.diameter = .ok (n.toNat / 2) := by
  have hle (i j : Fin n.toNat) : around n.toNat i j ≤ n.toNat / 2 := by
    simp only [around, gap]
    omega
  refine (measures_ring h).diameter hle ⟨0, hn⟩ ⟨n.toNat / 2, by omega⟩ ?_
  simp only [around, gap]
  omega

theorem diameter_grid (h : (grid rows cols layers).build = .ok d) (hrows : 1 ≤ rows.toNat)
    (hcols : 1 ≤ cols.toNat) (hlayers : 1 ≤ layers.toNat) :
    d.diameter = .ok ((rows.toNat - 1) + (cols.toNat - 1) + (layers.toNat - 1)) := by
  have hle (p q : Position rows cols layers) :
      steps p.1 q.1 ≤ (rows.toNat - 1) + (cols.toNat - 1) + (layers.toNat - 1) := by
    have hp := p.2
    have hq := q.2
    simp only [Within, steps, gap] at hp hq ⊢
    omega
  refine (measures_grid h).diameter hle ⟨(0, 0, 0), hrows, hcols, hlayers⟩
    ⟨(rows.toNat - 1, cols.toNat - 1, layers.toNat - 1), ?_⟩ ?_
  · simp only [Within]
    omega
  · simp only [steps, gap]
    omega

/-- The device of a topology with nodes has a diameter, so it is connected. -/
theorem exists_isDiameter (h : t.build = .ok d) (hne : t.nodes ≠ []) : ∃ k, d.IsDiameter k := by
  obtain ⟨m, hm⟩ := List.exists_mem_of_ne_nil _ hne
  cases t with
  | full n =>
    obtain ⟨i, hi, -⟩ := mem_nodes_full.1 hm
    rcases (show n.toNat = 1 ∨ 1 < n.toNat by omega) with hone | hmore
    · -- The only node is no hop away from itself.
      have hsame (i j : Fin n.toNat) : i = j := Fin.ext (by omega)
      have hle (i j : Fin n.toNat) : (if i = j then 0 else 1) ≤ 0 := by rw [if_pos (hsame i j)]
      exact ⟨0, diameter_eq_ok.1 ((measures_full h).diameter hle ⟨i, hi⟩ ⟨i, hi⟩ (if_pos rfl))⟩
    · exact ⟨1, diameter_eq_ok.1 (diameter_full h hmore)⟩
  | ring n =>
    obtain ⟨i, hi, -⟩ := mem_nodes_ring.1 hm
    exact ⟨_, diameter_eq_ok.1 (diameter_ring h (by omega))⟩
  | grid rows cols layers =>
    obtain ⟨r, c, l, ⟨hr, hc, hl⟩, -⟩ := mem_nodes_grid.1 hm
    exact ⟨_, diameter_eq_ok.1 (diameter_grid h (Nat.succ_le_of_lt (Nat.zero_lt_of_lt hr))
      (Nat.succ_le_of_lt (Nat.zero_lt_of_lt hc)) (Nat.succ_le_of_lt (Nat.zero_lt_of_lt hl)))⟩

/-- Distances and diameters in closed form, for each topology with a device. Different nodes of a
complete device are one hop apart. Around a ring the shorter way counts. In a grid each coordinate
counts for itself. A topology without nodes has a device, which has no diameter. -/
theorem distances_closed :
    (∀ n, ∃ d, (full n).build = .ok d ∧
      (∀ i < n.toNat, ∀ j < n.toNat, i ≠ j → d.distance (fullNode i) (fullNode j) = .ok 1) ∧
      (1 < n.toNat → d.diameter = .ok 1)) ∧
    (∀ n, ∃ d, (ring n).build = .ok d ∧
      (∀ i < n.toNat, ∀ j < n.toNat, d.distance (ringNode i) (ringNode j) =
        .ok (min ((i : Int) - j).natAbs (n.toNat - ((i : Int) - j).natAbs))) ∧
      (1 ≤ n.toNat → d.diameter = .ok (n.toNat / 2))) ∧
    (∀ rows cols layers, rows.toNat * cols.toNat * layers.toNat < UInt64.size →
      ∃ d, (grid rows cols layers).build = .ok d ∧
      (∀ r c l r' c' l', Within rows cols layers (r, c, l) → Within rows cols layers (r', c', l') →
        d.distance (gridNode r c l) (gridNode r' c' l') =
          .ok (((r : Int) - r').natAbs + ((c : Int) - c').natAbs + ((l : Int) - l').natAbs)) ∧
      (1 ≤ rows.toNat → 1 ≤ cols.toNat → 1 ≤ layers.toNat →
        d.diameter = .ok ((rows.toNat - 1) + (cols.toNat - 1) + (layers.toNat - 1)))) ∧
    ∀ t : Topology, t.nodes = [] → ∃ d, t.build = .ok d ∧ d.diameter = .error .noNodes := by
  refine ⟨fun n => ?_, fun n => ?_, fun rows cols layers hcount => ?_, fun t ht => ?_⟩
  · obtain ⟨d, hd, -⟩ := exists_build (t := full n) (by simpa [nodes] using toNat_lt_size n)
    refine ⟨d, hd, fun i hi j hj hne => ?_, diameter_full hd⟩
    exact ((measures_full hd).distance ⟨i, hi⟩ ⟨j, hj⟩).trans (by simp [hne])
  · obtain ⟨d, hd, -⟩ := exists_build (t := ring n) (by simpa [nodes] using toNat_lt_size n)
    exact ⟨d, hd, fun i hi j hj => (measures_ring hd).distance ⟨i, hi⟩ ⟨j, hj⟩, diameter_ring hd⟩
  · obtain ⟨d, hd, -⟩ := exists_build (t := grid rows cols layers)
      (by simpa [nodes, length_gridPositions] using hcount)
    refine ⟨d, hd, fun r c l r' c' l' hp hq => ?_, diameter_grid hd⟩
    exact (measures_grid hd).distance ⟨(r, c, l), hp⟩ ⟨(r', c', l'), hq⟩
  · obtain ⟨d, hd, hnodes, -⟩ := exists_build (t := t) (by rw [ht]; decide)
    exact ⟨d, hd, diameter_of_nil (hnodes.trans ht)⟩

end Topology

end CouplingMap
