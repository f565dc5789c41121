import CouplingMap.Proofs.Graph.PathSearch
import Mathlib.Data.List.MinMax

/-!
# The search for long paths as an enumeration

A plain recursion lists all simple paths without blocked vertices: from each start in turn, a path
before those that go on from it, and these along the neighbours in visiting order. The search with a
stack finds the first path in this list that has the wanted number of vertices, else the first one
of the longest. It backs out of a path after those that go on from it, which makes no difference,
since these are longer.

* `simplePaths`, `mem_simplePaths`: the list, and what is in it.
* `firstLongest`: the choice from it.
* `PathSearch.Ends`, `PathSearch.alike_extend`: the search from a start comes to an end, with an
  empty path and the marks from before.
* `longestPath_exact`: the path found, and what each call leaves behind.
-/

namespace CouplingMap.Graph

variable {n : Nat} {adj : Adjacency n} {blocked : Ledger Bool n} {wanted more bound : Nat}
  {v : Fin n} {back p b : List (Fin n)} {ps : List (List (Fin n))}

/-! ## All simple paths -/

/-- The simple paths that begin with a path and go on for a number of vertices at most: first the
path itself, and then those that go on along each neighbour in turn. The path is given backwards,
with `v` as its last vertex. -/
def pathsFrom (adj : Adjacency n) (blocked : Ledger Bool n) :
    Nat → Fin n → List (Fin n) → List (List (Fin n))
  | 0, v, back => [(v :: back).reverse]
  | more + 1, v, back =>
    (v :: back).reverse :: ((adj v).filter (onward blocked v back)).flatMap fun w =>
      pathsFrom adj blocked more w (v :: back)

theorem pathsFrom_succ : pathsFrom adj blocked (more + 1) v back =
    (v :: back).reverse :: ((adj v).filter (onward blocked v back)).flatMap fun w =>
      pathsFrom adj blocked more w (v :: back) := rfl

/-- The vertices from which paths may start, in order. -/
def starts (blocked : Ledger Bool n) : List (Fin n) := (List.finRange n).filter fun v => !blocked[v]

/-- All simple paths, from each start in turn. None of them has more than `n` vertices. -/
def simplePaths (adj : Adjacency n) (blocked : Ledger Bool n) : List (List (Fin n)) :=
  (starts blocked).flatMap fun v => pathsFrom adj blocked n v []

/-- The paths are the routes in another order. -/
theorem pathsFrom_perm (adj : Adjacency n) (blocked : Ledger Bool n) (more : Nat) (v : Fin n)
    (back : List (Fin n)) :
    (pathsFrom adj blocked more v back).Perm (routes adj blocked more v back) := by
  induction more generalizing v back with
  | zero => exact .refl _
  | succ more ih =>
    rw [pathsFrom_succ, routes]
    refine (List.Perm.cons _ ?_).trans (List.perm_append_singleton _ _).symm
    exact List.Perm.flatMap_left _ fun w _ => ih w (v :: back)

/-- A beginning of a route is a route. -/
theorem Route.take (h : Route adj blocked p) (k : Nat) : Route adj blocked (p.take k) :=
  ⟨h.nodup.sublist (List.take_sublist k p), fun v hv => h.free v (List.mem_of_mem_take hv),
    h.chain.take k⟩

/-- The simple paths are all that have a vertex. -/
theorem mem_simplePaths : p ∈ simplePaths adj blocked ↔ p ≠ [] ∧ Route adj blocked p := by
  have hperm : (simplePaths adj blocked).Perm (allRoutes adj blocked (n + 1)) :=
    List.Perm.flatMap_left _ fun v _ => pathsFrom_perm adj blocked n v []
  have hlength (h : Route adj blocked p) : p.length ≤ n + 1 :=
    (h.length_le_count.trans (count_free_le blocked)).trans (Nat.le_succ n)
  rw [hperm.mem_iff, mem_allRoutes]
  exact ⟨fun h => ⟨h.2.1, h.1⟩, fun h => ⟨h.2, h.1, hlength h.2⟩⟩

/-! ## The order does not matter -/

theorem length_lt_of_mem_pathsFrom (hp : p ∈ pathsFrom adj blocked more v back) :
    back.length < p.length := by
  induction more generalizing v back with
  | zero =>
    rw [List.mem_singleton.1 hp, List.length_reverse, List.length_cons]
    exact Nat.lt_succ_self _
  | succ more ih =>
    rcases List.mem_cons.1 hp with rfl | hp
    · rw [List.length_reverse, List.length_cons]
      exact Nat.lt_succ_self _
    · obtain ⟨w, -, hp⟩ := List.mem_flatMap.1 hp
      exact (Nat.lt_succ_self _).trans (ih hp)

/-- A path may be compared before or after longer ones. -/
theorem foldl_longer_late (h : ∀ q ∈ ps, p.length < q.length) :
    ps.foldl longer (longer b p) = longer (ps.foldl longer b) p := by
  cases ps with
  | nil => rfl
  | cons q ps =>
    have hq := h q List.mem_cons_self
    have hnext : longer (longer b p) q = longer b q := by
      unfold longer
      split_ifs <;> first | rfl | omega
    have hle : q.length ≤ (ps.foldl longer (longer b q)).length :=
      (le_length_longer b q).2.trans (le_length_foldl_longer _ ps _ List.mem_cons_self)
    rw [List.foldl_cons, List.foldl_cons, hnext]
    exact (longer_of_le (hq.le.trans hle)).symm

/-- The longest of the routes is the same in both orders. -/
theorem foldl_longer_routes (adj : Adjacency n) (blocked : Ledger Bool n) (more : Nat) (v : Fin n)
    (back b : List (Fin n)) : (routes adj blocked more v back).foldl longer b =
      (pathsFrom adj blocked more v back).foldl longer b := by
  induction more generalizing v back b with
  | zero => rfl
  | succ more ih =>
    have hlonger : ∀ q ∈ ((adj v).filter (onward blocked v back)).flatMap fun w =>
        pathsFrom adj blocked more w (v :: back), (v :: back).reverse.length < q.length := by
      intro q hq
      obtain ⟨w, -, hq⟩ := List.mem_flatMap.1 hq
      rw [List.length_reverse]
      exact length_lt_of_mem_pathsFrom hq
    rw [pathsFrom_succ, routes, List.foldl_cons, foldl_longer_late hlonger, List.foldl_append,
      List.foldl_flatMap, List.foldl_flatMap]
    simp only [ih]
    rfl

/-! ## The choice from a list -/

/-- The first path of the wanted number of vertices, else the first one of the longest. -/
def firstLongest (wanted : Nat) (ps : List (List (Fin n))) : List (Fin n) :=
  (ps.find? fun p => p.length = wanted).getD ((ps.argmax List.length).getD [])

theorem longer_nil (p : List (Fin n)) : longer [] p = p := by
  cases p with
  | nil => rfl
  | cons v p => exact longer_of_lt (Nat.succ_pos _)

/-- The first one of the longest paths comes from comparing them in turn. -/
theorem argmax_length (ps : List (List (Fin n))) :
    (ps.argmax List.length).getD [] = ps.foldl longer [] := by
  induction ps using List.reverseRecOn with
  | nil => rfl
  | append_singleton ps p ih =>
    rw [List.foldl_append, List.foldl_cons, List.foldl_nil, ← ih, List.argmax_concat]
    cases ps.argmax List.length with
    | none => exact (longer_nil p).symm
    | some c => exact apply_ite (fun o : Option (List (Fin n)) => o.getD []) _ _ _

/-- Among paths that are not too long, the first one of the wanted length is the first longest. -/
theorem foldl_longer_of_find? (hpos : 0 < wanted) (h : ∀ q ∈ ps, q.length ≤ wanted)
    (hp : (ps.find? fun p => p.length = wanted) = some p) : ps.foldl longer [] = p := by
  obtain ⟨hlength, before, after, rfl, hbefore⟩ := List.find?_eq_some_iff_append.1 hp
  simp only [decide_eq_true_eq, Bool.not_eq_true', decide_eq_false_iff_not] at hlength hbefore
  have hshort : (before.foldl longer []).length < wanted := by
    rcases List.mem_cons.1 (foldl_longer_mem [] before) with hnil | hmem
    · rw [hnil]
      exact hpos
    · exact Nat.lt_of_le_of_ne (h _ (List.mem_append_left _ hmem)) (hbefore _ hmem)
  rw [List.foldl_append, List.foldl_cons, longer_of_lt (hlength ▸ hshort)]
  refine foldl_longer_of_le fun q hq => hlength ▸ h q ?_
  exact List.mem_append_right _ (List.mem_cons_of_mem _ hq)

theorem foldl_longer_eq_firstLongest (hpos : 0 < wanted) (h : ∀ q ∈ ps, q.length ≤ wanted) :
    ps.foldl longer [] = firstLongest wanted ps := by
  unfold firstLongest
  cases hp : ps.find? fun p => p.length = wanted with
  | some p => exact foldl_longer_of_find? hpos h hp
  | none => exact (argmax_length ps).symm

/-- Paths that are too long do not count, if there is one of the wanted length among those. -/
theorem firstLongest_filter (h : (∃ p ∈ ps, wanted < p.length) → ∃ p ∈ ps, p.length = wanted) :
    firstLongest wanted (ps.filter fun p => p.length ≤ wanted) = firstLongest wanted ps := by
  have hfind : ((ps.filter fun p => p.length ≤ wanted).find? fun p => p.length = wanted) =
      ps.find? fun p => p.length = wanted := by
    rw [List.find?_filter]
    congr 1
    funext p
    simp only [decide_eq_true_eq]
    exact decide_eq_decide.2 ⟨And.right, fun h => ⟨h.le, h⟩⟩
  unfold firstLongest
  rw [hfind]
  cases hp : ps.find? fun p => p.length = wanted with
  | some p => rfl
  | none =>
    have hne : ∀ p ∈ ps, p.length ≠ wanted := by simpa using hp
    have hle : ∀ p ∈ ps, p.length ≤ wanted := fun p hp => Nat.le_of_not_lt fun hlt => by
      obtain ⟨q, hq, hlength⟩ := h ⟨p, hp, hlt⟩
      exact hne q hq hlength
    rw [List.filter_eq_self.2 fun p hp => decide_eq_true (hle p hp)]

/-- The paths up to a length are those of the recursion that goes on for fewer vertices. -/
theorem filter_pathsFrom (adj : Adjacency n) (blocked : Ledger Bool n) (more extra : Nat)
    (v : Fin n) (back : List (Fin n)) :
    ((pathsFrom adj blocked (more + extra) v back).filter fun p =>
      p.length ≤ back.length + 1 + more) = pathsFrom adj blocked more v back := by
  induction more generalizing v back with
  | zero =>
    have hself : (v :: back).reverse.length ≤ back.length + 1 + 0 := by simp
    cases extra with
    | zero => exact List.filter_cons_of_pos (decide_eq_true hself)
    | succ extra =>
      rw [Nat.zero_add, pathsFrom_succ, List.filter_cons, if_pos (decide_eq_true hself)]
      refine congrArg _ (List.filter_eq_nil_iff.2 fun p hp => ?_)
      obtain ⟨w, -, hp⟩ := List.mem_flatMap.1 hp
      have := length_lt_of_mem_pathsFrom hp
      rw [List.length_cons] at this
      simpa using this
  | succ more ih =>
    have hself : (v :: back).reverse.length ≤ back.length + 1 + (more + 1) := by simp
    have hbound : back.length + 1 + (more + 1) = (v :: back).length + 1 + more := by
      rw [List.length_cons]
      omega
    rw [Nat.add_right_comm more, pathsFrom_succ, pathsFrom_succ, List.filter_cons,
      if_pos (decide_eq_true hself), List.filter_flatMap, hbound]
    simp only [ih]

/-- The longest of the routes up to a length is chosen from the simple paths. -/
theorem foldl_longer_allRoutes (adj : Adjacency n) (blocked : Ledger Bool n)
    (h : more ≤ n) : (allRoutes adj blocked (more + 1)).foldl longer [] =
      firstLongest (more + 1) (simplePaths adj blocked) := by
  have hfrom (v : Fin n) : (pathsFrom adj blocked n v []).filter (fun p => p.length ≤ more + 1) =
      pathsFrom adj blocked more v [] := by
    have hfilter := filter_pathsFrom adj blocked more (n - more) v []
    rwa [Nat.add_sub_of_le h, List.length_nil, Nat.zero_add, Nat.add_comm 1] at hfilter
  have hfilter : (simplePaths adj blocked).filter (fun p => p.length ≤ more + 1) =
      (starts blocked).flatMap fun v => pathsFrom adj blocked more v [] := by
    rw [simplePaths, List.filter_flatMap]
    simp only [hfrom]
  have hle : ∀ p ∈ (starts blocked).flatMap fun v => pathsFrom adj blocked more v [],
      p.length ≤ more + 1 := by
    intro p hp
    rw [← hfilter] at hp
    exact of_decide_eq_true (List.mem_filter.1 hp).2
  -- A longer path begins with one of the wanted length.
  have hbegins : (∃ p ∈ simplePaths adj blocked, more + 1 < p.length) →
      ∃ p ∈ simplePaths adj blocked, p.length = more + 1 := by
    rintro ⟨p, hp, hlt⟩
    have hlength : (p.take (more + 1)).length = more + 1 := List.length_take_of_le hlt.le
    refine ⟨p.take (more + 1), mem_simplePaths.2 ⟨?_, (mem_simplePaths.1 hp).2.take _⟩, hlength⟩
    exact List.ne_nil_of_length_eq_add_one hlength
  rw [← firstLongest_filter hbegins, hfilter,
    ← foldl_longer_eq_firstLongest (Nat.succ_pos more) hle, allRoutes, List.foldl_flatMap,
    List.foldl_flatMap]
  simp only [foldl_longer_routes]
  rfl

/-! ## Every call -/

namespace PathSearch

/-- Steps lead from a state to one with an empty path. -/
def Ends (adj : Adjacency n) (wanted : Nat) (s t : PathSearch n) : Prop :=
  t.stack = [] ∧ ∃ count, (step adj wanted)^[count] s = t

/-- A run is a number of steps. With an empty path, a step does nothing. -/
theorem run_eq_iterate (adj : Adjacency n) (wanted bound : Nat) (s : PathSearch n) :
    run adj wanted bound s = (step adj wanted)^[bound] s := by
  induction bound generalizing s with
  | zero => rfl
  | succ bound ih =>
    rw [run, Function.iterate_succ_apply]
    split
    · rename_i h
      have hstep : s.step adj wanted = s := by
        rw [step, List.isEmpty_iff.1 h]
      rw [hstep, Function.iterate_fixed hstep]
    · exact ih _

/-- Two states have the same path and the same marks. -/
structure Alike (s t : PathSearch n) : Prop where
  marked : s.marked = t.marked
  stack : s.stack = t.stack

/-- The best path has no part in where the search goes. -/
theorem Alike.step {s t : PathSearch n} (h : Alike s t) :
    Alike (s.step adj wanted) (t.step adj wanted) := by
  obtain ⟨marked, stack, best⟩ := s
  obtain ⟨marked', stack', best'⟩ := t
  obtain ⟨rfl, rfl⟩ : marked = marked' ∧ stack = stack' := ⟨h.marked, h.stack⟩
  cases stack with
  | nil => exact ⟨rfl, rfl⟩
  | cons top below =>
    obtain ⟨v, untried⟩ := top
    unfold PathSearch.step
    dsimp only
    split
    · exact ⟨rfl, rfl⟩
    · split
      · exact ⟨rfl, rfl⟩
      · exact ⟨rfl, rfl⟩

theorem Alike.run {s t : PathSearch n} (h : Alike s t) (bound : Nat) :
    Alike (run adj wanted bound s) (run adj wanted bound t) := by
  rw [run_eq_iterate, run_eq_iterate]
  induction bound generalizing s t with
  | zero => exact h
  | succ bound ih =>
    rw [Function.iterate_succ_apply, Function.iterate_succ_apply]
    exact ih h.step

/-- A path that is not empty has a vertex, so to want none is to want one. -/
theorem step_zero (adj : Adjacency n) : step adj 0 = step adj 1 := by
  funext s
  unfold step
  split
  · rfl
  · rw [if_pos (Nat.zero_le _), if_pos (Nat.le_add_left 1 _)]

theorem run_zero (adj : Adjacency n) (bound : Nat) : run adj 0 bound = run adj 1 bound := by
  funext s
  rw [run_eq_iterate, run_eq_iterate, step_zero]

theorem alike_extend_succ (hmore : more ≤ n) (hbound : effort (width adj) n ≤ bound)
    (hv : blocked[v] = false) (best : List (Fin n)) :
    Alike (extend adj (more + 1) bound ⟨blocked, [], best⟩ v) ⟨blocked, [], best⟩ := by
  -- The best path makes no difference, so it may as well be empty.
  have halike : Alike (enter adj ⟨blocked, [], best⟩ v) (enter adj ⟨blocked, [], []⟩ v) :=
    ⟨rfl, rfl⟩
  have hrun : Alike (extend adj (more + 1) bound ⟨blocked, [], best⟩ v)
      (extend adj (more + 1) bound ⟨blocked, [], []⟩ v) := halike.run bound
  have hnil : ([] : List (Fin n)).length < more + 1 := Nat.succ_pos more
  rw [extend_eq ((effort_mono _ hmore).trans hbound) hv hnil] at hrun
  exact ⟨hrun.marked, hrun.stack⟩

/-- The search from a start leaves an empty path and the marks from before. -/
theorem alike_extend (hwanted : wanted ≤ n) (hbound : effort (width adj) n ≤ bound)
    (hv : blocked[v] = false) (best : List (Fin n)) :
    Alike (extend adj wanted bound ⟨blocked, [], best⟩ v) ⟨blocked, [], best⟩ := by
  cases wanted with
  | zero =>
    have h := alike_extend_succ (Nat.zero_le n) hbound hv best
    rwa [extend, Nat.zero_add, ← run_zero] at h
  | succ more => exact alike_extend_succ (Nat.le_of_succ_le hwanted) hbound hv best

end PathSearch

/-- A path is found if a vertex is asked for and free. -/
theorem longestPath_ne_nil {limit : Nat} (hlimit : 0 < limit) (hv : blocked[v] = false) :
    longestPath adj blocked limit ≠ [] := by
  intro hnil
  have hroute : Route adj blocked [v] := .singleton hv
  have hlength := length_le_longestPath hroute hlimit
  rw [hnil] at hlength
  exact Nat.not_succ_le_zero 0 hlength

/-- The path found is the one that the plain recursion finds: the first simple path with as many
vertices as are asked for and free, else the first one of the longest. There is always one, unless
no vertex is asked for or free. Each search from a start comes to an end, whatever has been found
before, and leaves an empty path and the marks with which it started. -/
theorem longestPath_exact (adj : Adjacency n) (blocked : Ledger Bool n) (limit : Nat) :
    let wanted := min limit (blocked.toList.count false)
    (∀ p, p ∈ simplePaths adj blocked ↔ p ≠ [] ∧ Route adj blocked p) ∧
    (longestPath adj blocked limit =
      if wanted = 0 then [] else firstLongest wanted (simplePaths adj blocked)) ∧
    (longestPath adj blocked limit = [] ↔ wanted = 0) ∧
    ∀ (v : Fin n) (best : List (Fin n)), blocked[v] = false →
      ∀ bound ≥ PathSearch.effort (PathSearch.width adj) n,
        let s : PathSearch n := ⟨blocked, [], best⟩
        let t := s.extend adj wanted bound v
        PathSearch.Ends adj wanted (s.enter adj v) t ∧ t.marked = blocked := by
  intro wanted
  have hle : wanted ≤ n := (min_le_right _ _).trans (count_free_le blocked)
  have heq : longestPath adj blocked limit = (allRoutes adj blocked wanted).foldl longer [] :=
    longestPath_eq adj blocked limit
  refine ⟨fun p => mem_simplePaths, ?_, ⟨fun hnil => ?_, fun hzero => ?_⟩, ?_⟩
  · rw [heq]
    cases hwanted : wanted with
    | zero => rfl
    | succ more =>
      rw [if_neg (Nat.succ_ne_zero more)]
      exact foldl_longer_allRoutes adj blocked (by omega)
  · by_contra hne
    obtain ⟨hlimit, hfree⟩ := lt_min_iff.1 (Nat.pos_of_ne_zero hne)
    obtain ⟨v, hv⟩ := Ledger.mem_toList.1 (List.count_pos_iff.1 hfree)
    exact longestPath_ne_nil hlimit hv hnil
  · rw [heq, hzero]
    rfl
  · intro v best hv bound hbound s t
    have halike : PathSearch.Alike t s := PathSearch.alike_extend hle hbound hv best
    exact ⟨⟨halike.stack, bound, (PathSearch.run_eq_iterate adj wanted bound _).symm⟩,
      halike.marked⟩

end CouplingMap.Graph
