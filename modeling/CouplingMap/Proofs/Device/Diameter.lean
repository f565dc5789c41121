import CouplingMap.Proofs.Device.Distance

/-!
# The diameter is the greatest distance

Only the hop counts from a position to those after it are read. Since distances are symmetric, these
are all of them, and the ones that are left out are zero.

* `Device.Raises`: one round of a search for a maximum. `Raises.foldlM` is the whole search.
* `Device.diameter_eq_ok`: the diameter bounds all distances and is one of them.
* `Device.diameter_of_nil`: a device without nodes has none.
* `Device.exists_firstGap`: what is reported of a device in which some nodes are not joined.
* `Device.diameter_exact`: the three answers, and when each is given.
-/

namespace CouplingMap.Device

open CouplingMap.Graph

variable {d : Device} {k l m : Nat}

/-! ## Searching for a maximum -/

/-- A round of a search for a maximum: it fails unless its item is good, and what it finds is bounded
just as the maximum so far and the item are. -/
structure Raises {ε : Type} (f : Nat → Except ε Nat) (good : Prop) (below : Nat → Prop) : Prop where
  ok : good → ∀ best, ∃ k, f best = .ok k ∧ ∀ m, k ≤ m ↔ best ≤ m ∧ below m
  error : ¬ good → ∀ best, ∃ e, f best = .error e

/-- A round that is given a number raises the maximum to it. -/
theorem raises_elim {ε : Type} (o : Option Nat) (e : ε) :
    Raises (fun best => o.elim (.error e) fun k => .ok (max best k)) (o ≠ none)
      fun m => ∀ l, o = some l → l ≤ m := by
  cases o with
  | none => exact ⟨fun h => absurd rfl h, fun _ _ => ⟨e, rfl⟩⟩
  | some l => exact ⟨fun _ best => ⟨max best l, rfl, by simp⟩, fun h => absurd nofun h⟩

/-- A search fails unless all items are good, and what it finds is bounded just as all items are. -/
theorem Raises.foldlM {ε α : Type} {f : Nat → α → Except ε Nat} {good : α → Prop}
    {below : α → Nat → Prop} (xs : List α)
    (h : ∀ x ∈ xs, Raises (fun best => f best x) (good x) (below x)) :
    Raises (fun best => xs.foldlM f best) (∀ x ∈ xs, good x) fun m => ∀ x ∈ xs, below x m := by
  induction xs with
  | nil => exact ⟨fun _ best => ⟨best, rfl, by simp⟩, fun hbad => absurd (by simp) hbad⟩
  | cons x xs ih =>
    have hx := h x List.mem_cons_self
    have ih := ih fun y hy => h y (List.mem_cons_of_mem _ hy)
    simp only [List.forall_mem_cons, List.foldlM_cons]
    constructor
    · rintro ⟨hgood, hgoods⟩ best
      obtain ⟨k, hk, hk'⟩ := hx.ok hgood best
      obtain ⟨l, hl, hl'⟩ := ih.ok hgoods k
      refine ⟨l, by rw [hk]; exact hl, fun m => ?_⟩
      rw [hl', hk', and_assoc]
    · intro hbad best
      by_cases hgood : good x
      · obtain ⟨k, hk, -⟩ := hx.ok hgood best
        obtain ⟨e, he⟩ := ih.error (fun hgoods => hbad ⟨hgood, hgoods⟩) k
        exact ⟨e, by rw [hk]; exact he⟩
      · obtain ⟨e, he⟩ := hx.error hgood best
        exact ⟨e, by rw [he]; rfl⟩

/-- The positions after one are those with a greater number. -/
theorem mem_drop_finRange {n : Nat} {i j : Fin n} :
    j ∈ (List.finRange n).drop (i + 1) ↔ i < j := by
  rw [List.mem_drop_iff_getElem]
  constructor
  · rintro ⟨k, hk, rfl⟩
    rw [List.getElem_finRange, Fin.lt_def]
    show (i : Nat) < _ + k
    omega
  · intro h
    have hj := j.isLt
    rw [Fin.lt_def] at h
    refine ⟨j - (i + 1), by rw [List.length_finRange]; omega, Fin.ext ?_⟩
    rw [List.getElem_finRange]
    show (i : Nat) + 1 + _ = _
    omega

theorem farthestAfter_eq (d : Device) (best : Nat) (i : Fin d.size) :
    d.farthestAfter d.table best i = ((List.finRange d.size).drop (i + 1)).foldlM
      (fun best j => (d.hops i)[j].elim (.error (.unreachable (d.nodeAt i) (d.nodeAt j)))
        fun k => .ok (max best k)) best := by
  unfold farthestAfter hops
  dsimp only
  congr
  funext best j
  cases (hopsFrom (lookup d.table) i)[j] <;> rfl

/-- From one position, the search reads the hop counts to those after it. -/
theorem raises_farthestAfter (d : Device) (i : Fin d.size) :
    Raises (fun best => d.farthestAfter d.table best i) (∀ j > i, (d.hops i)[j] ≠ none)
      fun m => ∀ j > i, ∀ l, (d.hops i)[j] = some l → l ≤ m := by
  have h := Raises.foldlM ((List.finRange d.size).drop (i + 1)) fun j _ =>
    raises_elim (d.hops i)[j] (DeviceError.unreachable (d.nodeAt i) (d.nodeAt j))
  simp only [mem_drop_finRange] at h
  simpa only [farthestAfter_eq] using h

/-! ## Distances -/

/-- A number bounds all distances and is one of them. -/
structure IsDiameter (d : Device) (k : Nat) : Prop where
  bound : ∀ a ∈ d.nodes, ∀ b ∈ d.nodes, ∃ l ≤ k, d.distance a b = .ok l
  reached : ∃ a b, d.distance a b = .ok k

theorem IsDiameter.unique (h : d.IsDiameter k) (h' : d.IsDiameter l) : k = l := by
  have hle {k l : Nat} (h : d.IsDiameter k) (h' : d.IsDiameter l) : k ≤ l := by
    obtain ⟨a, b, hab⟩ := h.reached
    obtain ⟨ha, hb, -⟩ := distance_eq_ok.1 hab
    obtain ⟨m, hm, hab'⟩ := h'.bound a ha b hb
    obtain rfl := Except.ok.inj (hab.symm.trans hab')
    exact hm
  exact Nat.le_antisymm (hle h h') (hle h' h)

/-- If each position has a hop count to those after it, the least bound of these counts is the
greatest distance. -/
theorem isDiameter_of_hops (hne : d.nodes ≠ [])
    (hgood : ∀ i, ∀ j > i, (d.hops i)[j] ≠ none)
    (hk : ∀ m, k ≤ m ↔ ∀ i, ∀ j > i, ∀ l, (d.hops i)[j] = some l → l ≤ m) : d.IsDiameter k := by
  have hafter {i j : Fin d.size} (hij : i < j) : ∃ l ≤ k, (d.hops i)[j] = some l := by
    obtain ⟨l, hl⟩ := Option.ne_none_iff_exists'.1 (hgood i j hij)
    exact ⟨l, (hk k).1 le_rfl i j hij l hl, hl⟩
  constructor
  · intro a ha b hb
    obtain ⟨i, rfl⟩ := exists_nodeAt ha
    obtain ⟨j, rfl⟩ := exists_nodeAt hb
    simp only [distance_nodeAt_eq_ok]
    rcases lt_trichotomy i j with hij | rfl | hij
    · exact hafter hij
    · exact ⟨0, Nat.zero_le k, d.hops_self i⟩
    · rw [hops_comm]
      exact hafter hij
  · cases k with
    | zero =>
      obtain ⟨a, ha⟩ := List.exists_mem_of_ne_nil _ hne
      exact ⟨a, a, distance_eq_ok.2 ⟨ha, ha, .self d.shape a⟩⟩
    | succ k =>
      -- The bound is the least one, so some count is not below it.
      have hnot := (hk k).not.1 (Nat.not_succ_le_self k)
      push Not at hnot
      obtain ⟨i, j, hij, l, hl, hkl⟩ := hnot
      obtain ⟨l', hl', heq⟩ := hafter hij
      obtain rfl := Option.some.inj (hl.symm.trans heq)
      obtain rfl : l = k + 1 := by omega
      exact ⟨_, _, distance_nodeAt_eq_ok.2 hl⟩

/-! ## The diameter -/

theorem diameter_of_nil (h : d.nodes = []) : d.diameter = .error .noNodes := if_pos h

theorem diameter_of_ne_nil (h : d.nodes ≠ []) :
    d.diameter = (List.finRange d.size).foldlM (d.farthestAfter d.table) 0 := if_neg h

/-- The search reads the hop counts from each position to those after it. -/
theorem raises_diameter (d : Device) :
    Raises (fun best => (List.finRange d.size).foldlM (d.farthestAfter d.table) best)
      (∀ i, ∀ j > i, (d.hops i)[j] ≠ none)
      fun m => ∀ i, ∀ j > i, ∀ l, (d.hops i)[j] = some l → l ≤ m := by
  have h := Raises.foldlM (List.finRange d.size) fun i _ => d.raises_farthestAfter i
  simpa only [List.mem_finRange, true_imp_iff] using h

/-- There is a diameter if each position has a hop count to those after it. -/
theorem exists_diameter (hne : d.nodes ≠ []) (hgood : ∀ i, ∀ j > i, (d.hops i)[j] ≠ none) :
    ∃ k, d.diameter = .ok k ∧ d.IsDiameter k := by
  obtain ⟨k, hk, hbounds⟩ := d.raises_diameter.ok hgood 0
  exact ⟨k, (diameter_of_ne_nil hne).trans hk,
    isDiameter_of_hops hne hgood fun m => (hbounds m).trans (and_iff_right (Nat.zero_le m))⟩

/-- The diameter is the greatest distance between two nodes, if all have a distance. -/
theorem diameter_eq_ok : d.diameter = .ok k ↔ d.IsDiameter k := by
  by_cases hne : d.nodes = []
  · rw [diameter_of_nil hne]
    refine ⟨nofun, fun h => ?_⟩
    obtain ⟨a, b, hab⟩ := h.reached
    rw [distance_eq_ok, hne] at hab
    exact absurd hab.1 nofun
  by_cases hgood : ∀ i, ∀ j > i, (d.hops i)[j] ≠ none
  · obtain ⟨l, hl, hmax⟩ := exists_diameter hne hgood
    rw [hl, Except.ok.injEq]
    exact ⟨fun h => h ▸ hmax, hmax.unique⟩
  · obtain ⟨e, he⟩ := d.raises_diameter.error hgood 0
    rw [diameter_of_ne_nil hne, he]
    refine ⟨nofun, fun h => absurd (fun i j _ hnone => ?_) hgood⟩
    obtain ⟨l, -, hl⟩ := h.bound _ (d.nodeAt_mem i) _ (d.nodeAt_mem j)
    rw [distance_nodeAt_eq_ok, hnone] at hl
    contradiction

/-- A diameter is a hop count, so there are more nodes. -/
theorem IsDiameter.lt_length (h : d.IsDiameter k) : k < d.nodes.length := by
  obtain ⟨a, b, hab⟩ := h.reached
  obtain ⟨ha, hb, -⟩ := distance_eq_ok.1 hab
  obtain ⟨i, rfl⟩ := exists_nodeAt ha
  obtain ⟨j, rfl⟩ := exists_nodeAt hb
  rw [length_nodes]
  exact hops_lt (distance_nodeAt_eq_ok.1 hab)

/-! ## Nodes that are not joined -/

/-- `a` is the first node, and `b` is the first one that it does not reach. -/
def FirstGap (d : Device) (a b : Node) : Prop :=
  d.nodes.head? = some a ∧ ∃ before after, d.nodes = before ++ b :: after ∧
    (∀ m ∈ before, d.shape.Reachable a m) ∧ ¬ d.shape.Reachable a b

/-- A search fails with the error of the first item that fails. -/
theorem foldlM_eq_error {ε α : Type} {f : Nat → α → Except ε Nat} {before after : List α} {x : α}
    {e : ε} (hbefore : ∀ y ∈ before, ∀ best, ∃ k, f best y = .ok k)
    (hx : ∀ best, f best x = .error e) (best : Nat) :
    (before ++ x :: after).foldlM f best = .error e := by
  induction before generalizing best with
  | nil =>
    rw [List.nil_append, List.foldlM_cons, hx]
    rfl
  | cons y before ih =>
    obtain ⟨k, hk⟩ := hbefore y List.mem_cons_self best
    rw [List.cons_append, List.foldlM_cons, hk]
    exact ih (fun z hz => hbefore z (List.mem_cons_of_mem _ hz)) k

/-- Positions have no hop count just if their nodes are not joined. -/
theorem hops_eq_none {i j : Fin d.size} :
    (d.hops i)[j] = none ↔ ¬ d.shape.Reachable (d.nodeAt i) (d.nodeAt j) := by
  have h := d.apart_hops i j
  refine ⟨fun hnone => ?_, fun hn => h.unique hn⟩
  rw [hnone] at h
  exact h

/-- If the first position has no hop count to another one, the first of these is reported. -/
theorem diameter_of_hops {i j : Fin d.size} {before after : List (Fin d.size)}
    (hi : (i : Nat) = 0) (hsplit : List.finRange d.size = before ++ j :: after)
    (hbefore : ∀ k ∈ before, (d.hops i)[k] ≠ none) (hj : (d.hops i)[j] = none) :
    d.diameter = .error (.unreachable (d.nodeAt i) (d.nodeAt j)) := by
  have hfirst : (before ++ j :: after).head? = some i := by
    rw [← hsplit, List.head?_eq_getElem?, List.getElem?_eq_getElem (by simpa using i.pos),
      List.getElem_finRange]
    exact congrArg some (Fin.ext hi.symm)
  have hne : d.nodes ≠ [] := List.ne_nil_of_mem (d.nodeAt_mem i)
  cases before with
  | nil =>
    obtain rfl := Option.some.inj hfirst
    rw [hops_self] at hj
    contradiction
  | cons c before =>
    obtain rfl := Option.some.inj hfirst
    -- The search from the first position fails, and nothing is searched after that.
    have hfail : d.farthestAfter d.table 0 c =
        .error (.unreachable (d.nodeAt c) (d.nodeAt j)) := by
      rw [farthestAfter_eq, hi, hsplit]
      refine foldlM_eq_error (fun k hk best => ?_) (fun best => by rw [hj]; rfl) 0
      obtain ⟨l, hl⟩ := Option.ne_none_iff_exists'.1 (hbefore k (List.mem_cons_of_mem _ hk))
      exact ⟨max best l, by rw [hl]; rfl⟩
    rw [diameter_of_ne_nil hne, hsplit, List.cons_append, List.foldlM_cons, hfail]
    rfl

/-- If some nodes are not joined, the first node and the first one that it does not reach are
reported. -/
theorem exists_firstGap (h : ∃ u ∈ d.nodes, ∃ w ∈ d.nodes, ¬ d.shape.Reachable u w) :
    ∃ a b, d.diameter = .error (.unreachable a b) ∧ d.FirstGap a b := by
  obtain ⟨u, hu, w, hw, huw⟩ := h
  have hpos : 0 < d.size := d.length_nodes ▸ List.length_pos_of_mem hu
  cases hfind : (List.finRange d.size).find? fun j => (d.hops ⟨0, hpos⟩)[j].isNone with
  | none =>
    -- All nodes would be joined through the first one.
    have hall (m : Node) (hm : m ∈ d.nodes) : d.shape.Reachable (d.nodeAt ⟨0, hpos⟩) m := by
      obtain ⟨j, rfl⟩ := exists_nodeAt hm
      have hj := List.find?_eq_none.1 hfind j (List.mem_finRange j)
      rwa [Option.isNone_iff_eq_none, hops_eq_none, not_not] at hj
    exact absurd ((hall u hu).symm.trans (hall w hw)) huw
  | some j =>
    obtain ⟨hj, before, after, hsplit, hbefore⟩ := List.find?_eq_some_iff_append.1 hfind
    rw [Option.isNone_iff_eq_none] at hj
    have hbefore (k : Fin d.size) (hk : k ∈ before) : (d.hops ⟨0, hpos⟩)[k] ≠ none := by
      simpa [Option.isSome_iff_ne_none] using hbefore k hk
    refine ⟨_, _, diameter_of_hops rfl hsplit hbefore hj, ?_, before.map d.nodeAt,
      after.map d.nodeAt, ?_, fun m hm => ?_, hops_eq_none.1 hj⟩
    · rw [List.head?_eq_getElem?]
      exact d.getElem?_nodes ⟨0, hpos⟩
    · rw [← map_nodeAt, hsplit, List.map_append, List.map_cons]
    · obtain ⟨k, hk, rfl⟩ := List.mem_map.1 hm
      exact not_not.1 (hops_eq_none.not.1 (hbefore k hk))

/-- There are no nodes, or some nodes are not joined, or there is a diameter. -/
theorem diameter_cases (d : Device) :
    (d.nodes = [] ∧ d.diameter = .error .noNodes) ∨
    ((∃ u ∈ d.nodes, ∃ w ∈ d.nodes, ¬ d.shape.Reachable u w) ∧
      ∃ a b, d.diameter = .error (.unreachable a b) ∧ d.FirstGap a b) ∨
    (d.nodes ≠ [] ∧ (∀ u ∈ d.nodes, ∀ w ∈ d.nodes, d.shape.Reachable u w) ∧
      ∃ k, d.diameter = .ok k ∧ d.IsDiameter k) := by
  by_cases hne : d.nodes = []
  · exact .inl ⟨hne, diameter_of_nil hne⟩
  by_cases hall : ∀ u ∈ d.nodes, ∀ w ∈ d.nodes, d.shape.Reachable u w
  · refine .inr (.inr ⟨hne, hall, exists_diameter hne fun i j _ hnone => ?_⟩)
    exact hops_eq_none.1 hnone (hall _ (d.nodeAt_mem i) _ (d.nodeAt_mem j))
  · push Not at hall
    exact .inr (.inl ⟨hall, exists_firstGap hall⟩)

/-- The diameter fails without nodes, and if some nodes are not joined. Then the first node and the
first one that it does not reach are reported. Otherwise it is the greatest distance, which is that
of some two nodes and less than the number of nodes. -/
theorem diameter_exact (d : Device) :
    (d.diameter = .error .noNodes ↔ d.nodes = []) ∧
    ((∃ a b, d.diameter = .error (.unreachable a b)) ↔
      ∃ u ∈ d.nodes, ∃ w ∈ d.nodes, ¬ d.shape.Reachable u w) ∧
    (∀ a b, d.diameter = .error (.unreachable a b) → d.FirstGap a b) ∧
    (d.nodes ≠ [] → (∀ u ∈ d.nodes, ∀ w ∈ d.nodes, d.shape.Reachable u w) →
      ∃ k, d.diameter = .ok k ∧ d.IsDiameter k ∧ k < d.nodes.length) := by
  rcases d.diameter_cases with ⟨hnil, h⟩ | ⟨hgap, a, b, h, hfirst⟩ | ⟨hne, hall, k, h, hmax⟩
  · simp [h, hnil]
  · have hne : d.nodes ≠ [] := by
      obtain ⟨u, hu, -⟩ := hgap
      exact List.ne_nil_of_mem hu
    refine ⟨by simp [h, hne], by simpa [h] using hgap, fun a' b' h' => ?_, fun _ hall => ?_⟩
    · rw [h] at h'
      cases h'
      exact hfirst
    · obtain ⟨u, hu, w, hw, huw⟩ := hgap
      exact absurd (hall u hu w hw) huw
  · refine ⟨by simp [h, hne], by simpa [h] using hall, by simp [h], fun _ _ => ?_⟩
    exact ⟨k, h, hmax, hmax.lt_length⟩

end CouplingMap.Device
