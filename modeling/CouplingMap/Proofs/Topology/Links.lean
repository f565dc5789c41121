import CouplingMap.Proofs.Topology.Build
import Mathlib.Algebra.BigOperators.Group.List.Basic

/-!
# The graphs of topologies

The nodes and connections of a topology are written out by loops over its sizes. Here they are told
by the names of the nodes, which hold 32-bit words, and counted.

* `Topology.Names`, `Topology.Connects`: the nodes that a topology names, and which of them it
  connects in which direction.
* `Topology.wordLinks?`: the connections computed with 32-bit words. `wordLinks?_eq` says that no
  sum goes out of range, so that these are the connections of the topology.
* `Topology.countP_gridPositions`, `Topology.length_links`: the number of connections.
* `Topology.build_exact`: which topologies have a device, and what it is.
-/

namespace CouplingMap.Topology

variable {n rows cols layers : UInt32} {t : Topology} {a b m : Node}

/-! ## The graphs that are meant -/

/-- The sizes of a topology. -/
def sizes : Topology → List UInt32
  | full n => [n]
  | ring n => [n]
  | grid rows cols layers => [rows, cols, layers]

/-- The nodes of a topology are named by the words below its sizes. -/
inductive Names : Topology → Node → Prop where
  | full {n i : UInt32} (hi : i < n) : Names (full n) ⟨fullRegister, .one i⟩
  | ring {n i : UInt32} (hi : i < n) : Names (ring n) ⟨ringRegister, .one i⟩
  | grid {rows cols layers r c l : UInt32} (hr : r < rows) (hc : c < cols) (hl : l < layers) :
    Names (grid rows cols layers) ⟨gridRegister, .three r c l⟩

/-- The connections of a topology. A complete device has all pairs of different nodes, a ring goes
from every node to the next one and from the last to the first, and a grid goes up by one in one of
the coordinates. -/
inductive Connects : Topology → Node → Node → Prop where
  | full {n i j : UInt32} (hi : i < n) (hj : j < n) (hne : i ≠ j) :
    Connects (full n) ⟨fullRegister, .one i⟩ ⟨fullRegister, .one j⟩
  | ring {n i j : UInt32} (hi : i < n) (hn : n ≠ 1) (hj : j.toNat = (i.toNat + 1) % n.toNat) :
    Connects (ring n) ⟨ringRegister, .one i⟩ ⟨ringRegister, .one j⟩
  | column {rows cols layers r c c' l : UInt32} (hr : r < rows) (hc : c' < cols) (hl : l < layers)
      (hup : c'.toNat = c.toNat + 1) :
    Connects (grid rows cols layers) ⟨gridRegister, .three r c l⟩ ⟨gridRegister, .three r c' l⟩
  | row {rows cols layers r r' c l : UInt32} (hr : r' < rows) (hc : c < cols) (hl : l < layers)
      (hup : r'.toNat = r.toNat + 1) :
    Connects (grid rows cols layers) ⟨gridRegister, .three r c l⟩ ⟨gridRegister, .three r' c l⟩
  | layer {rows cols layers r c l l' : UInt32} (hr : r < rows) (hc : c < cols) (hl : l' < layers)
      (hup : l'.toNat = l.toNat + 1) :
    Connects (grid rows cols layers) ⟨gridRegister, .three r c l⟩ ⟨gridRegister, .three r c l'⟩

/-- Words are the numbers below a size. -/
theorem exists_word {p : Nat → Prop} (n : UInt32) :
    (∃ i < n.toNat, p i) ↔ ∃ i < n, p i.toNat := by
  constructor
  · rintro ⟨i, hi, hp⟩
    have hword := UInt32.toNat_ofNat_of_lt' (lt_size hi)
    refine ⟨UInt32.ofNat i, ?_, ?_⟩
    · rwa [UInt32.lt_iff_toNat_lt, hword]
    · rwa [hword]
  · rintro ⟨i, hi, hp⟩
    exact ⟨i.toNat, UInt32.lt_iff_toNat_lt.1 hi, hp⟩

theorem fullNode_toNat (i : UInt32) : fullNode i.toNat = ⟨fullRegister, .one i⟩ := by
  rw [fullNode, UInt32.ofNat_toNat]

theorem ringNode_toNat (i : UInt32) : ringNode i.toNat = ⟨ringRegister, .one i⟩ := by
  rw [ringNode, UInt32.ofNat_toNat]

theorem gridNode_toNat (r c l : UInt32) :
    gridNode r.toNat c.toNat l.toNat = ⟨gridRegister, .three r c l⟩ := by
  rw [gridNode, UInt32.ofNat_toNat, UInt32.ofNat_toNat, UInt32.ofNat_toNat]

/-- Positions within a grid are given by words. -/
theorem Within.exists_words {r c l : Nat} (h : Within rows cols layers (r, c, l)) :
    ∃ r' < rows, ∃ c' < cols, ∃ l' < layers, r = r'.toNat ∧ c = c'.toNat ∧ l = l'.toNat := by
  obtain ⟨r', hr, rfl⟩ := (exists_word (p := (r = ·)) rows).1 ⟨r, h.1, rfl⟩
  obtain ⟨c', hc, rfl⟩ := (exists_word (p := (c = ·)) cols).1 ⟨c, h.2.1, rfl⟩
  obtain ⟨l', hl, rfl⟩ := (exists_word (p := (l = ·)) layers).1 ⟨l, h.2.2, rfl⟩
  exact ⟨r', hr, c', hc, l', hl, rfl, rfl, rfl⟩

/-- The nodes listed are those that the topology names. -/
theorem mem_nodes_iff_names : m ∈ t.nodes ↔ t.Names m := by
  cases t with
  | full n =>
    rw [mem_nodes_full, exists_word]
    simp only [fullNode_toNat]
    constructor
    · rintro ⟨i, hi, rfl⟩
      exact .full hi
    · intro h
      cases h with
      | full hi => exact ⟨_, hi, rfl⟩
  | ring n =>
    rw [mem_nodes_ring, exists_word]
    simp only [ringNode_toNat]
    constructor
    · rintro ⟨i, hi, rfl⟩
      exact .ring hi
    · intro h
      cases h with
      | ring hi => exact ⟨_, hi, rfl⟩
  | grid rows cols layers =>
    rw [mem_nodes_grid]
    constructor
    · rintro ⟨r, c, l, h, rfl⟩
      obtain ⟨r, hr, c, hc, l, hl, rfl, rfl, rfl⟩ := h.exists_words
      rw [gridNode_toNat]
      exact .grid hr hc hl
    · intro h
      cases h with
      | grid hr hc hl => exact ⟨_, _, _, ⟨hr, hc, hl⟩, gridNode_toNat ..⟩

/-- On a ring only a single node would come after itself. -/
theorem next_ne_iff {n i : Nat} (hi : i < n) : (i + 1) % n ≠ i ↔ n ≠ 1 := by
  rcases Nat.lt_or_eq_of_le hi with hlt | heq
  · rw [Nat.mod_eq_of_lt hlt]
    omega
  · rw [← heq, Nat.mod_self]
    omega

/-- The connections listed are those that are meant. -/
theorem mem_links_iff_connects : (a, b) ∈ t.links ↔ t.Connects a b := by
  cases t with
  | full n =>
    rw [mem_links_full, exists_word]
    simp only [exists_word, fullNode_toNat, Ne, UInt32.toNat_inj]
    constructor
    · rintro ⟨i, hi, j, hj, hne, rfl, rfl⟩
      exact .full hi hj hne
    · intro h
      cases h with
      | full hi hj hne => exact ⟨_, hi, _, hj, hne, rfl, rfl⟩
  | ring n =>
    rw [mem_links_ring, exists_word]
    have hone : n.toNat ≠ 1 ↔ n ≠ 1 := not_congr (UInt32.toNat_inj (b := 1))
    constructor
    · rintro ⟨i, hi, hne, rfl, rfl⟩
      have hlt := UInt32.lt_iff_toNat_lt.1 hi
      have hnext := lt_size (n := n) (Nat.mod_lt (i.toNat + 1) (Nat.zero_lt_of_lt hlt))
      rw [ringNode_toNat]
      exact .ring hi (hone.1 ((next_ne_iff hlt).1 hne)) (UInt32.toNat_ofNat_of_lt' hnext)
    · intro h
      cases h with
      | ring hi hn hj =>
        refine ⟨_, hi, (next_ne_iff (UInt32.lt_iff_toNat_lt.1 hi)).2 (hone.2 hn),
          ringNode_toNat _, ?_⟩
        rw [← hj, ringNode_toNat]
  | grid rows cols layers =>
    rw [mem_links_grid]
    constructor
    · rintro ⟨r, c, l, r', c', l', hp, hq, hstep, rfl, rfl⟩
      obtain ⟨r, hr, c, hc, l, hl, rfl, rfl, rfl⟩ := hp.exists_words
      obtain ⟨r', hr', c', hc', l', hl', rfl, rfl, rfl⟩ := hq.exists_words
      rw [gridNode_toNat, gridNode_toNat]
      simp only [Step, Prod.mk.injEq, UInt32.toNat_inj] at hstep
      obtain ⟨rfl, hup, rfl⟩ | ⟨hup, rfl, rfl⟩ | ⟨rfl, rfl, hup⟩ := hstep
      · exact .column hr hc' hl hup
      · exact .row hr' hc hl hup
      · exact .layer hr hc hl' hup
    · have hbelow {i j k : UInt32} (hj : j < k) (hup : j.toNat = i.toNat + 1) : i < k :=
        UInt32.lt_trans (UInt32.lt_iff_toNat_lt.2 (hup ▸ Nat.lt_succ_self _)) hj
      intro h
      cases h with
      | column hr hc hl hup =>
        exact ⟨_, _, _, _, _, _, ⟨hr, hbelow hc hup, hl⟩, ⟨hr, hc, hl⟩,
          .inl (Prod.ext rfl (Prod.ext hup rfl)), gridNode_toNat .., gridNode_toNat ..⟩
      | row hr hc hl hup =>
        exact ⟨_, _, _, _, _, _, ⟨hbelow hr hup, hc, hl⟩, ⟨hr, hc, hl⟩,
          .inr (.inl (Prod.ext hup rfl)), gridNode_toNat .., gridNode_toNat ..⟩
      | layer hr hc hl hup =>
        exact ⟨_, _, _, _, _, _, ⟨hr, hc, hbelow hl hup⟩, ⟨hr, hc, hl⟩,
          .inr (.inr (Prod.ext rfl (Prod.ext rfl hup))), gridNode_toNat .., gridNode_toNat ..⟩

/-! ## 32-bit words -/

/-- The words below a size in ascending order. -/
def wordsBelow (n : UInt32) : List UInt32 := (List.range n.toNat).map UInt32.ofNat

/-- The word after another one, `none` if there is none. -/
def wordAfter? (i : UInt32) : Option UInt32 :=
  if i.toNat + 1 < UInt32.size then some (i + 1) else none

/-- The positions of a grid in words. -/
def wordPositions (rows cols layers : UInt32) : List (UInt32 × UInt32 × UInt32) :=
  (wordsBelow layers).flatMap fun l =>
    (wordsBelow rows).flatMap fun r => (wordsBelow cols).map fun c => (r, c, l)

/-- The node at a position in words. -/
def wordNode (p : UInt32 × UInt32 × UInt32) : Node := ⟨gridRegister, .three p.1 p.2.1 p.2.2⟩

/-- The positions that a position in words is connected to, `none` if a coordinate has no
successor. -/
def wordSteps? (rows cols layers : UInt32) (p : UInt32 × UInt32 × UInt32) :
    Option (List (UInt32 × UInt32 × UInt32)) := do
  let r ← wordAfter? p.1
  let c ← wordAfter? p.2.1
  let l ← wordAfter? p.2.2
  some ((if c < cols then [(p.1, c, p.2.2)] else []) ++
    (if r < rows then [(r, p.2.1, p.2.2)] else []) ++
    (if l < layers then [(p.1, p.2.1, l)] else []))

/-- The connections computed with words, `none` if a sum has no word. -/
def wordLinks? : Topology → Option (List (Node × Node))
  | full n =>
    some <| (wordsBelow n).flatMap fun i => ((wordsBelow n).filter fun j => i ≠ j).map fun j =>
      (⟨fullRegister, .one i⟩, ⟨fullRegister, .one j⟩)
  | ring n =>
    ((wordsBelow n).mapM fun i => (wordAfter? i).map fun j => (i, j % n)).map fun steps =>
      (steps.filter fun s => s.2 ≠ s.1).map fun s =>
        (⟨ringRegister, .one s.1⟩, ⟨ringRegister, .one s.2⟩)
  | grid rows cols layers =>
    ((wordPositions rows cols layers).mapM fun p =>
      (wordSteps? rows cols layers p).map fun next =>
        next.map fun q => (wordNode p, wordNode q)).map List.flatten

theorem wordAfter?_ofNat {i : Nat} (hi : i < n.toNat) :
    wordAfter? (UInt32.ofNat i) = some (UInt32.ofNat (i + 1)) := by
  have hsize : i + 1 < UInt32.size := Nat.lt_of_le_of_lt hi n.toNat_lt
  rw [wordAfter?, UInt32.toNat_ofNat_of_lt' (lt_size hi), if_pos hsize, UInt32.ofNat_add]
  rfl

/-- A list is passed through if every item is. -/
theorem mapM_eq_some {α β : Type} {f : α → Option β} {g : α → β} {xs : List α}
    (h : ∀ x ∈ xs, f x = some (g x)) : xs.mapM f = some (xs.map g) := by
  induction xs with
  | nil => rfl
  | cons x xs ih =>
    rw [List.mapM_cons, h x List.mem_cons_self, ih fun y hy => h y (List.mem_cons_of_mem _ hy)]
    rfl

/-- Around a ring the next position is computed with words. -/
theorem map_wordAfter? {i : Nat} (hi : i < n.toNat) :
    (wordAfter? (UInt32.ofNat i)).map (fun j => (UInt32.ofNat i, j % n)) =
      some (UInt32.ofNat i, UInt32.ofNat ((i + 1) % n.toNat)) := by
  have hmod : UInt32.ofNat (i + 1) % n = UInt32.ofNat ((i + 1) % n.toNat) := by
    rw [← UInt32.toNat_inj, UInt32.toNat_mod,
      UInt32.toNat_ofNat_of_lt' (Nat.lt_of_le_of_lt hi n.toNat_lt),
      UInt32.toNat_ofNat_of_lt' (lt_size (Nat.mod_lt _ (Nat.zero_lt_of_lt hi)))]
  rw [wordAfter?_ofNat hi, Option.map_some, hmod]

/-- A position in words. -/
def toWords (p : Nat × Nat × Nat) : UInt32 × UInt32 × UInt32 :=
  (UInt32.ofNat p.1, UInt32.ofNat p.2.1, UInt32.ofNat p.2.2)

theorem wordPositions_eq (rows cols layers : UInt32) :
    wordPositions rows cols layers =
      (gridPositions rows.toNat cols.toNat layers.toNat).map toWords := by
  unfold wordPositions wordsBelow gridPositions
  split
  · rename_i h
    rcases Nat.mul_eq_zero.1 h with h | h <;> simp [h]
  · simp [List.flatMap_map, List.map_flatMap, toWords, Function.comp_def]

/-- Words compare with a size as numbers do that are not beyond it. -/
theorem ofNat_lt_iff {i : Nat} (hi : i < n.toNat) :
    UInt32.ofNat (i + 1) < n ↔ i + 1 < n.toNat :=
  UInt32.ofNat_lt_iff (Nat.lt_of_le_of_lt hi n.toNat_lt)

/-- Within a grid every coordinate has a successor. -/
theorem wordSteps?_toWords {p : Nat × Nat × Nat} (h : Within rows cols layers p) :
    wordSteps? rows cols layers (toWords p) =
      some ((gridSteps rows.toNat cols.toNat layers.toNat p.1 p.2.1 p.2.2).map toWords) := by
  obtain ⟨hr, hc, hl⟩ := h
  simp only [wordSteps?, toWords, wordAfter?_ofNat hr, wordAfter?_ofNat hc, wordAfter?_ofNat hl,
    ofNat_lt_iff hr, ofNat_lt_iff hc, ofNat_lt_iff hl, gridSteps, List.map_append,
    apply_ite (List.map toWords), List.map_cons, List.map_nil, Option.bind_eq_bind,
    Option.bind_some]

/-- A fan of connections in words. -/
theorem map_wordSteps? {p : Nat × Nat × Nat} (h : Within rows cols layers p) :
    ((wordSteps? rows cols layers (toWords p)).map fun next =>
        next.map fun q => (wordNode (toWords p), wordNode q)) =
      some ((gridSteps rows.toNat cols.toNat layers.toNat p.1 p.2.1 p.2.2).map fun q =>
        (gridNode p.1 p.2.1 p.2.2, gridNode q.1 q.2.1 q.2.2)) := by
  rw [wordSteps?_toWords h, Option.map_some, List.map_map]
  rfl

/-- With words no sum goes out of range, and the connections are the same. -/
theorem wordLinks?_eq (t : Topology) : t.wordLinks? = some t.links := by
  cases t with
  | full n =>
    refine congrArg some ?_
    simp only [wordsBelow, List.flatMap_map, List.filter_map, List.map_map]
    refine List.flatMap_congr fun i hi => ?_
    have hfilter : (List.range n.toNat).filter
        ((fun j => decide (UInt32.ofNat i ≠ j)) ∘ UInt32.ofNat) =
        (List.range n.toNat).filter fun j => i ≠ j :=
      List.filter_congr fun j hj => decide_eq_decide.2 <| not_congr <|
        ofNat_inj (lt_size (List.mem_range.1 hi)) (lt_size (List.mem_range.1 hj))
    rw [hfilter]
    rfl
  | ring n =>
    have hstep : ∀ i ∈ List.range n.toNat, _ := fun i hi => map_wordAfter? (List.mem_range.1 hi)
    have hfilter : (List.range n.toNat).filter ((fun s : UInt32 × UInt32 => decide (s.2 ≠ s.1)) ∘
        fun i => (UInt32.ofNat i, UInt32.ofNat ((i + 1) % n.toNat))) =
        (List.range n.toNat).filter fun i => (i + 1) % n.toNat ≠ i := by
      refine List.filter_congr fun i hi => decide_eq_decide.2 (not_congr ?_)
      have hi := List.mem_range.1 hi
      exact ofNat_inj (lt_size (Nat.mod_lt _ (Nat.zero_lt_of_lt hi))) (lt_size hi)
    rw [wordLinks?, wordsBelow, List.mapM_map]
    refine (congrArg (Option.map _) (mapM_eq_some hstep)).trans ?_
    rw [Option.map_some, List.filter_map, hfilter, List.map_map]
    rfl
  | grid rows cols layers =>
    have hfan : ∀ p ∈ gridPositions rows.toNat cols.toNat layers.toNat, _ := fun p hp =>
      map_wordSteps? (mem_gridPositions.1 hp)
    rw [wordLinks?, wordPositions_eq, List.mapM_map]
    refine (congrArg (Option.map List.flatten) (mapM_eq_some hfan)).trans ?_
    rw [Option.map_some, ← List.flatMap_def]
    rfl

/-! ## Counting -/

/-- The number of connections. -/
def linkCount : Topology → Nat
  | full n => n.toNat * (n.toNat - 1)
  | ring n => if n = 1 then 0 else n.toNat
  | grid rows cols layers =>
    rows.toNat * (cols.toNat - 1) * layers.toNat + (rows.toNat - 1) * cols.toNat * layers.toNat +
      rows.toNat * cols.toNat * (layers.toNat - 1)

/-- Counting is adding a one for each item that is counted. -/
theorem sum_map_ite {α : Type} {p : α → Prop} [DecidablePred p] (xs : List α) :
    (xs.map fun x => if p x then 1 else 0).sum = xs.countP fun x => p x := by
  induction xs with
  | nil => rfl
  | cons x xs ih =>
    rw [List.map_cons, List.sum_cons, ih, List.countP_cons, Nat.add_comm]
    simp

/-- The positions of a grid that make up another grid are as many as this one has. -/
theorem countP_gridPositions {rows cols layers rows' cols' layers' : Nat}
    {p : Nat × Nat × Nat → Prop} [DecidablePred p]
    (h : ∀ r c l, (r < rows ∧ c < cols ∧ l < layers) ∧ p (r, c, l) ↔
      r < rows' ∧ c < cols' ∧ l < layers') :
    ((gridPositions rows cols layers).countP fun q => p q) = rows' * cols' * layers' := by
  -- Neither list repeats a position, so it is enough that they have the same ones.
  have hperm : ((gridPositions rows cols layers).filter fun q => p q).Perm
      (gridPositions rows' cols' layers') := by
    refine (List.perm_ext_iff_of_nodup ((gridPositions_nodup ..).filter _)
      (gridPositions_nodup ..)).2 fun ⟨r, c, l⟩ => ?_
    rw [List.mem_filter, mem_gridPositions, mem_gridPositions, decide_eq_true_iff, h]
  rw [List.countP_eq_length_filter, hperm.length_eq, length_gridPositions]

theorem length_gridSteps (rows cols layers r c l : Nat) :
    (gridSteps rows cols layers r c l).length = (if c + 1 < cols then 1 else 0) +
      (if r + 1 < rows then 1 else 0) + if l + 1 < layers then 1 else 0 := by
  simp only [gridSteps, List.length_append, apply_ite List.length, List.length_singleton,
    List.length_nil]

/-- Each dimension of a grid has a connection for every position that is not the last in it. -/
theorem length_links_grid (rows cols layers : UInt32) :
    (grid rows cols layers).links.length = (grid rows cols layers).linkCount := by
  rw [links, List.length_flatMap]
  simp only [List.length_map, length_gridSteps, List.sum_map_add]
  rw [sum_map_ite, sum_map_ite, sum_map_ite, linkCount]
  rw [countP_gridPositions, countP_gridPositions, countP_gridPositions]
  all_goals
    intro r c l
    simp only
    omega

/-- All nodes but one are different from it. -/
theorem length_filter_ne {n i : Nat} (hi : i < n) :
    ((List.range n).filter fun j => i ≠ j).length = n - 1 := by
  have herase : (List.range n).erase i = (List.range n).filter fun j => i ≠ j := by
    rw [List.nodup_range.erase_eq_filter]
    refine List.filter_congr fun j _ => ?_
    grind
  rw [← herase, List.length_erase_of_mem (List.mem_range.2 hi), List.length_range]

/-- The connections of a topology are as many as its sizes tell. -/
theorem length_links (t : Topology) : t.links.length = t.linkCount := by
  cases t with
  | full n =>
    have hfan : ∀ i ∈ List.range n.toNat,
        (((List.range n.toNat).filter fun j => i ≠ j).map fun j =>
          (fullNode i, fullNode j)).length = n.toNat - 1 := by
      intro i hi
      rw [List.length_map, length_filter_ne (List.mem_range.1 hi)]
    rw [links, List.length_flatMap, List.map_congr_left hfan, List.map_const', List.sum_replicate,
      List.length_range, linkCount, smul_eq_mul]
  | ring n =>
    have hone : n.toNat ≠ 1 ↔ n ≠ 1 := not_congr (UInt32.toNat_inj (b := 1))
    have hfilter : ((List.range n.toNat).filter fun i => (i + 1) % n.toNat ≠ i) =
        (List.range n.toNat).filter fun _ => n ≠ 1 :=
      List.filter_congr fun i hi => decide_eq_decide.2 <|
        (next_ne_iff (List.mem_range.1 hi)).trans hone
    rw [links, List.length_map, hfilter, linkCount]
    split
    · rename_i h
      simp [h]
    · rename_i h
      simp [h]
  | grid rows cols layers => exact length_links_grid ..

/-! ## The device -/

theorem length_nodes (t : Topology) : t.nodes.length = (t.sizes.map UInt32.toNat).prod := by
  cases t with
  | full n => simp [nodes, sizes]
  | ring n => simp [nodes, sizes]
  | grid rows cols layers => simp [nodes, sizes, length_gridPositions, Nat.mul_assoc]

/-- The nodes of a topology cannot be counted just if the product of its sizes does not fit 64 bits,
and just then it has no device. Otherwise its nodes are different and as many as counted, no sum of
words goes out of range, and the device has the nodes that are named and each connection that is
meant, once. So the number of connections follows from the sizes. -/
theorem build_exact (t : Topology) :
    match t.nodeCount? with
    | none => UInt64.size ≤ (t.sizes.map UInt32.toNat).prod ∧
        t.build = .error (.topology (.tooManyNodes t))
    | some count => (t.sizes.map UInt32.toNat).prod < UInt64.size ∧
        t.nodes.Nodup ∧ t.nodes.length = count ∧ t.wordLinks? = some t.links ∧
        ∃ d, t.build = .ok d ∧ d.nodes = t.nodes ∧ (∀ m, m ∈ d.nodes ↔ t.Names m) ∧
          d.connections = t.links.map Device.unweighted ∧
          (d.connections.map Connection.ends).Nodup ∧
          (∀ a b, (a, b) ∈ d.connections.map Connection.ends ↔ t.Connects a b) ∧
          d.connectionCount = t.linkCount := by
  rw [nodeCount?_eq, ← length_nodes]
  by_cases hcount : t.nodes.length < UInt64.size
  · obtain ⟨d, hd, hnodes, hconnections⟩ := exists_build hcount
    have hends : d.connections.map Connection.ends = t.links := by
      rw [hconnections, List.map_map]
      exact List.map_id _
    rw [if_pos hcount]
    refine ⟨hcount, t.nodes_nodup, rfl, t.wordLinks?_eq, d, hd, hnodes, fun m => ?_, hconnections,
      d.ends_nodup, fun a b => ?_, ?_⟩
    · rw [hnodes, mem_nodes_iff_names]
    · rw [hends, mem_links_iff_connects]
    · rw [d.connectionCount_eq, hconnections, List.length_map, length_links]
  · rw [if_neg hcount]
    exact ⟨Nat.le_of_not_lt hcount, build_eq_error hcount⟩

end CouplingMap.Topology
