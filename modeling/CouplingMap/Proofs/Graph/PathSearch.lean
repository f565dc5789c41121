import CouplingMap.Proofs.Graph.Route
import Mathlib.Data.List.Perm.Subperm
import Mathlib.Order.Monotone.Basic

/-!
# The search for long paths

The search keeps a stack, but what it finds is what the recursion on routes describes: while the
search is busy with a vertex, it backs out of the routes that go on from the current path, in their
order, and keeps the longest one. It leaves the path when a route has the wanted length.

* `PathSearch.Steps`: a number of steps lead from one state to another.
* `PathSearch.Completes`, `PathSearch.completes`: what the search does until it is done with a
  vertex.
* `longestPath_eq`: the path found is the longest of all routes.
* `length_le_longestPath`: no route up to the limit is longer than the path found.
-/

namespace CouplingMap.Graph

variable {n : Nat} {adj : Adjacency n} {blocked : Ledger Bool n} {wanted more : Nat} {v w : Fin n}
  {best ws : List (Fin n)} {below : List (Fin n × List (Fin n))}

/-- Entries that are set one after another. -/
theorem getElem_foldr_set (x : Bool) (m : Ledger Bool n) (path : List (Fin n)) (w : Fin n) :
    (path.foldr (fun (v : Fin n) m => m.set v x) m)[w] =
      if path.contains w then x else m[w] := by
  induction path with
  | nil => rfl
  | cons v path ih =>
    rw [List.foldr_cons, Ledger.getElem_set, ih, List.contains_cons]
    by_cases h : v = w
    · simp [h]
    · simp [h, Ne.symm h]

namespace PathSearch

/-! ## Marks -/

/-- The blocked vertices and those of a path. -/
def marks (blocked : Ledger Bool n) (path : List (Fin n)) : Ledger Bool n :=
  path.foldr (fun (v : Fin n) m => m.set v true) blocked

theorem getElem_marks (blocked : Ledger Bool n) (path : List (Fin n)) (w : Fin n) :
    (marks blocked path)[w] = (blocked[w] || path.contains w) := by
  rw [marks, getElem_foldr_set]
  cases path.contains w <;> simp

/-- A vertex may be entered just if it is not marked. -/
theorem onward_eq (v : Fin n) (back : List (Fin n)) (w : Fin n) :
    onward blocked v back w = !(marks blocked (v :: back))[w] := by
  rw [getElem_marks, onward, Bool.not_or]

/-- Leaving the last vertex of a path takes its mark away. -/
theorem marks_leave {back : List (Fin n)} (h : Route adj blocked (v :: back).reverse) :
    (marks blocked (v :: back)).set v false = marks blocked back := by
  have hv : v ∉ back := (List.nodup_cons.1 ((List.reverse_perm _).nodup_iff.1 h.nodup)).1
  have hfree : blocked[v] = false := h.free v (List.mem_reverse.2 List.mem_cons_self)
  refine Ledger.ext fun w => ?_
  rw [Ledger.getElem_set, getElem_marks, getElem_marks]
  by_cases hvw : v = w
  · subst hvw
    simp [hfree, hv]
  · simp [hvw, Ne.symm hvw]

/-- Leaving all of a path takes its marks away. -/
theorem marks_leaveAll {path : List (Fin n)} (h : Route adj blocked path.reverse) :
    path.reverse.foldl (fun m (v : Fin n) => m.set v false) (marks blocked path) = blocked := by
  rw [List.foldl_reverse]
  refine Ledger.ext fun w => ?_
  rw [getElem_foldr_set, getElem_marks]
  by_cases hmem : w ∈ path
  · simp [hmem, h.free w (List.mem_reverse.2 hmem)]
  · simp [hmem]

/-! ## Steps -/

/-- The search is busy with the last vertex of its path. -/
def busy (blocked : Ledger Bool n) (v : Fin n) (untried : List (Fin n))
    (below : List (Fin n × List (Fin n))) (best : List (Fin n)) : PathSearch n :=
  ⟨marks blocked (v :: below.map Prod.fst), (v, untried) :: below, best⟩

/-- The search is done with what is above a part of its stack: it goes on there, unless its best
path is long enough. -/
def settle (blocked : Ledger Bool n) (wanted : Nat) (below : List (Fin n × List (Fin n)))
    (best : List (Fin n)) : PathSearch n :=
  if wanted ≤ best.length then ⟨blocked, [], best⟩
  else ⟨marks blocked (below.map Prod.fst), below, best⟩

theorem settle_of_lt (h : best.length < wanted) :
    settle blocked wanted below best = ⟨marks blocked (below.map Prod.fst), below, best⟩ :=
  if_neg (Nat.not_le.2 h)

theorem settle_of_le (h : wanted ≤ best.length) :
    settle blocked wanted below best = ⟨blocked, [], best⟩ := if_pos h

/-- Some steps lead from one state to another. -/
def Steps (adj : Adjacency n) (wanted count : Nat) (s t : PathSearch n) : Prop :=
  ∀ bound, run adj wanted (count + bound) s = run adj wanted bound t

theorem Steps.trans {c c' : Nat} {s t u : PathSearch n} (h : Steps adj wanted c s t)
    (h' : Steps adj wanted c' t u) : Steps adj wanted (c + c') s u := fun bound => by
  rw [Nat.add_assoc, h, h']

/-- A search that is busy goes on. -/
theorem steps_step (adj : Adjacency n) (wanted : Nat) (blocked : Ledger Bool n) (v : Fin n)
    (untried : List (Fin n)) (below : List (Fin n × List (Fin n))) (best : List (Fin n)) :
    Steps adj wanted 1 (busy blocked v untried below best)
      ((busy blocked v untried below best).step adj wanted) := fun bound => by
  rw [Nat.add_comm, run, if_neg]
  simp [busy]

/-- A search does the same from states that differ in the first step only. -/
theorem Steps.of_step_eq {c : Nat} {us : List (Fin n)} {t : PathSearch n}
    (h : Steps adj wanted (1 + c) (busy blocked v us below best) t)
    (heq : (busy blocked v ws below best).step adj wanted =
      (busy blocked v us below best).step adj wanted) :
    Steps adj wanted (1 + c) (busy blocked v ws below best) t := fun bound => by
  have hus := steps_step adj wanted blocked v us below best (c + bound)
  have hws := steps_step adj wanted blocked v ws below best (c + bound)
  rw [← h bound, Nat.add_assoc, hus, hws, heq]

theorem step_full (h : wanted ≤ below.length + 1)
    (hroute : Route adj blocked (v :: below.map Prod.fst).reverse) :
    (busy blocked v ws below best).step adj wanted =
      ⟨blocked, [], (v :: below.map Prod.fst).reverse⟩ := by
  simp only [step, busy, if_pos h, leaveAll, path, List.map_cons, marks_leaveAll hroute]

/-- A neighbour that is marked is passed over. -/
theorem step_skip (h : below.length + 1 < wanted)
    (hw : onward blocked v (below.map Prod.fst) w = false) :
    (busy blocked v (w :: ws) below best).step adj wanted =
      (busy blocked v ws below best).step adj wanted := by
  rw [onward_eq, Bool.not_eq_false'] at hw
  have hdrop : (w :: ws).dropWhile (fun u => (marks blocked (v :: below.map Prod.fst))[u]) =
      ws.dropWhile fun u => (marks blocked (v :: below.map Prod.fst))[u] :=
    List.dropWhile_cons_of_pos hw
  simp only [step, busy, if_neg (Nat.not_le.2 h), hdrop]
  rfl

/-- A neighbour that is not marked is entered. -/
theorem step_enter (h : below.length + 1 < wanted)
    (hw : onward blocked v (below.map Prod.fst) w = true) :
    (busy blocked v (w :: ws) below best).step adj wanted =
      busy blocked w (adj w) ((v, ws) :: below) best := by
  rw [onward_eq, Bool.not_eq_true'] at hw
  have hdrop : (w :: ws).dropWhile (fun u => (marks blocked (v :: below.map Prod.fst))[u]) =
      w :: ws :=
    List.dropWhile_cons_of_neg (Bool.eq_false_iff.1 hw)
  simp only [step, busy, if_neg (Nat.not_le.2 h), hdrop]
  rfl

/-- Without a neighbour to go to the search backs out. -/
theorem step_back (h : below.length + 1 < wanted)
    (hroute : Route adj blocked (v :: below.map Prod.fst).reverse) :
    (busy blocked v [] below best).step adj wanted =
      ⟨marks blocked (below.map Prod.fst), below,
        longer best (v :: below.map Prod.fst).reverse⟩ := by
  simp only [step, busy, if_neg (Nat.not_le.2 h), List.dropWhile_nil, marks_leave hroute, path,
    List.map_cons, longer, List.length_reverse, List.length_cons, List.length_map]

/-! ## Whole vertices -/

/-- The search gets done with a vertex from which paths go on for at most `more` vertices. -/
def Completes (adj : Adjacency n) (blocked : Ledger Bool n) (wanted more : Nat) : Prop :=
  ∀ (v : Fin n) (below : List (Fin n × List (Fin n))) (best : List (Fin n)),
    below.length + 1 + more = wanted → Route adj blocked (v :: below.map Prod.fst).reverse →
    best.length < wanted → ∃ c ≤ effort (width adj) more,
      Steps adj wanted c (busy blocked v (adj v) below best) (settle blocked wanted below
        ((routes adj blocked more v (below.map Prod.fst)).foldl longer best))

theorem length_le_of_mem_routesAlong (hmore : below.length + 1 + (more + 1) = wanted)
    (hws : ws ⊆ adj v) {p : List (Fin n)}
    (hp : p ∈ routesAlong adj blocked more v (below.map Prod.fst) ws) : p.length ≤ wanted := by
  have hall := length_le_of_mem_routes (routesAlong_subset hws hp)
  rw [List.length_map] at hall
  omega

/-- The search gets done with a vertex by trying some of its neighbours and backing out of it. -/
theorem steps_along (ih : Completes adj blocked wanted more)
    (hmore : below.length + 1 + (more + 1) = wanted)
    (hroute : Route adj blocked (v :: below.map Prod.fst).reverse) (hbest : best.length < wanted)
    (hws : ws ⊆ adj v) : ∃ c, c ≤ ws.length * (effort (width adj) more + 1) ∧
      Steps adj wanted (1 + c) (busy blocked v ws below best) (settle blocked wanted below
        ((routesAlong adj blocked more v (below.map Prod.fst) ws).foldl longer best)) := by
  have hlt : below.length + 1 < wanted := by omega
  induction ws generalizing best with
  | nil =>
    have hstep := steps_step adj wanted blocked v [] below best
    have hlength : (longer best (v :: below.map Prod.fst).reverse).length < wanted := by
      refine length_longer_lt hbest ?_
      rwa [List.length_reverse, List.length_cons, List.length_map]
    rw [step_back hlt hroute, ← settle_of_lt hlength] at hstep
    exact ⟨0, Nat.zero_le _, hstep⟩
  | cons w ws ihw =>
    obtain ⟨hw, hws⟩ := List.cons_subset.1 hws
    cases ho : onward blocked v (below.map Prod.fst) w with
    | false =>
      obtain ⟨c, hc, hsteps⟩ := ihw hbest hws
      rw [routesAlong_skip ho, List.length_cons, Nat.succ_mul]
      exact ⟨c, Nat.le_add_right_of_le hc, hsteps.of_step_eq (step_skip hlt ho)⟩
    | true =>
      have hnext := steps_step adj wanted blocked v (w :: ws) below best
      rw [step_enter hlt ho] at hnext
      obtain ⟨c, hc, hsteps⟩ := ih w ((v, ws) :: below) best
        (by rw [List.length_cons]; omega) (hroute.onward hw ho) hbest
      rw [List.map_cons] at hsteps
      rw [routesAlong_enter ho, List.foldl_append, List.length_cons, Nat.succ_mul]
      by_cases hlong : wanted ≤ ((routes adj blocked more w
          (v :: below.map Prod.fst)).foldl longer best).length
      · -- the routes that are left are not longer
        rw [foldl_longer_of_le fun p hp => Nat.le_trans
          (length_le_of_mem_routesAlong hmore hws hp) hlong, settle_of_le hlong]
        rw [settle_of_le hlong] at hsteps
        exact ⟨c, by omega, hnext.trans hsteps⟩
      · rw [settle_of_lt (Nat.lt_of_not_le hlong)] at hsteps
        obtain ⟨c', hc', hsteps'⟩ := ihw (Nat.lt_of_not_le hlong) hws
        refine ⟨c + (1 + c'), by omega, ?_⟩
        exact hnext.trans (hsteps.trans hsteps')

theorem le_foldl_width (adj : Adjacency n) (vs : List (Fin n)) (k : Nat) :
    k ≤ vs.foldl (fun k v => max k (adj v).length) k ∧
      ∀ v ∈ vs, (adj v).length ≤ vs.foldl (fun k v => max k (adj v).length) k := by
  induction vs generalizing k with
  | nil => exact ⟨Nat.le_refl k, by simp⟩
  | cons u vs ih =>
    obtain ⟨hk, hvs⟩ := ih (max k (adj u).length)
    rw [List.foldl_cons]
    refine ⟨by omega, fun v hv => ?_⟩
    rcases List.mem_cons.1 hv with rfl | hv
    · omega
    · exact hvs v hv

theorem length_le_width (adj : Adjacency n) (v : Fin n) : (adj v).length ≤ width adj :=
  (le_foldl_width adj (List.finRange n) 0).2 v (List.mem_finRange v)

/-- The search gets done with every vertex. -/
theorem completes (adj : Adjacency n) (blocked : Ledger Bool n) (wanted more : Nat) :
    Completes adj blocked wanted more := by
  induction more with
  | zero =>
    intro v below best hmore hroute hbest
    have hstep := steps_step adj wanted blocked v (adj v) below best
    rw [step_full (Nat.le_of_eq hmore.symm) hroute] at hstep
    have hlength : (v :: below.map Prod.fst).reverse.length = wanted := by
      rw [List.length_reverse, List.length_cons, List.length_map]
      exact hmore
    have hlonger : (routes adj blocked 0 v (below.map Prod.fst)).foldl longer best =
        (v :: below.map Prod.fst).reverse := longer_of_lt (hlength ▸ hbest)
    rw [hlonger, settle_of_le (Nat.le_of_eq hlength.symm)]
    exact ⟨1, Nat.le_refl _, hstep⟩
  | succ more ih =>
    intro v below best hmore hroute hbest
    obtain ⟨c, hc, hsteps⟩ := steps_along ih hmore hroute hbest (List.Subset.refl (adj v))
    refine ⟨1 + c, ?_, hsteps⟩
    have := Nat.mul_le_mul_right (effort (width adj) more + 1) (length_le_width adj v)
    rw [effort]
    omega

/-! ## Whole searches -/

theorem effort_mono (width : Nat) : Monotone (effort width) := by
  refine monotone_nat_of_le_succ fun free => ?_
  induction free with
  | zero => rw [effort, effort]; omega
  | succ free ih =>
    have := Nat.mul_le_mul_left width (Nat.add_le_add_right ih 1)
    rw [effort, effort]
    omega

theorem run_done (bound : Nat) :
    run adj wanted bound ⟨blocked, [], best⟩ = ⟨blocked, [], best⟩ := by
  cases bound <;> rfl

/-- The search from a start leaves an empty path, and the marks are as they were. -/
theorem extend_eq {bound : Nat} (hbound : effort (width adj) more ≤ bound)
    (hv : blocked[v] = false) (hbest : best.length < more + 1) :
    extend adj (more + 1) bound ⟨blocked, [], best⟩ v =
      ⟨blocked, [], (routes adj blocked more v []).foldl longer best⟩ := by
  obtain ⟨c, hc, hsteps⟩ := completes adj blocked (more + 1) more v [] best
    (Nat.add_comm _ _) (.singleton hv) hbest
  obtain ⟨rest, rfl⟩ := Nat.exists_eq_add_of_le (Nat.le_trans hc hbound)
  have hsettle (b : List (Fin n)) : settle blocked (more + 1) [] b = ⟨blocked, [], b⟩ := by
    unfold settle
    split <;> rfl
  rw [hsettle] at hsteps
  exact (hsteps rest).trans (run_done rest)

/-- The search from some starts finds the longest of their routes. -/
theorem extendEach_eq {bound : Nat} (hbound : effort (width adj) more ≤ bound)
    (vs : List (Fin n)) (hbest : best.length < more + 1) :
    (extendEach adj (more + 1) bound blocked vs ⟨blocked, [], best⟩).best =
      ((vs.filter fun v => !blocked[v]).flatMap fun v => routes adj blocked more v []).foldl
        longer best := by
  induction vs generalizing best with
  | nil => rfl
  | cons v vs ih =>
    unfold extendEach
    cases hv : blocked[v] with
    | true =>
      rw [if_pos rfl, List.filter_cons_of_neg (by simp [hv]), ih hbest]
    | false =>
      rw [if_neg Bool.false_ne_true, List.filter_cons_of_pos (by simp [hv]), List.flatMap_cons,
        List.foldl_append, extend_eq hbound hv hbest]
      dsimp only
      split
      · -- the routes from further starts are not longer
        rename_i hlong
        refine (foldl_longer_of_le fun p hp => Nat.le_trans ?_ hlong).symm
        obtain ⟨u, -, hp⟩ := List.mem_flatMap.1 hp
        have := length_le_of_mem_routes hp
        rw [List.length_nil] at this
        omega
      · rename_i hshort
        exact ih (Nat.lt_of_not_le hshort)

end PathSearch

/-- No more vertices are free than there are. -/
theorem count_free_le (blocked : Ledger Bool n) : blocked.toList.count false ≤ n :=
  List.count_le_length.trans_eq blocked.length_toList

/-- The path found is the longest of all routes with a bounded number of vertices. -/
theorem longestPath_eq (adj : Adjacency n) (blocked : Ledger Bool n) (limit : Nat) :
    longestPath adj blocked limit =
      (allRoutes adj blocked (min limit (blocked.toList.count false))).foldl longer [] := by
  have hcount := count_free_le blocked
  unfold longestPath
  cases hwanted : min limit (blocked.toList.count false) with
  | zero => rfl
  | succ more =>
    have hbound : PathSearch.effort (PathSearch.width adj) more ≤
        PathSearch.effort (PathSearch.width adj) n := PathSearch.effort_mono _ (by omega)
    dsimp only
    rw [if_neg (Nat.succ_ne_zero more), PathSearch.extendEach_eq hbound _ (by simp)]
    rfl

/-- A route has no more vertices than are free. -/
theorem Route.length_le_count {p : List (Fin n)} (h : Route adj blocked p) :
    p.length ≤ blocked.toList.count false := by
  rw [blocked.toList_eq, List.count, List.countP_map, List.countP_eq_length_filter]
  refine (h.nodup.subperm fun v hv => ?_).length_le
  exact List.mem_filter.2 ⟨List.mem_finRange v, by simp [h.free v hv]⟩

/-- No route up to the limit is longer than the path found. -/
theorem length_le_longestPath {p : List (Fin n)} {limit : Nat} (h : Route adj blocked p)
    (hlimit : p.length ≤ limit) : p.length ≤ (longestPath adj blocked limit).length := by
  rw [longestPath_eq]
  refine le_length_foldl_longer [] _ p (List.mem_cons.2 ?_)
  by_cases hp : p = []
  · exact Or.inl hp
  · exact Or.inr (mem_allRoutes.2 ⟨h, hp, le_min hlimit h.length_le_count⟩)

/-- A route that starts at the first free vertex and goes on to the first neighbour every time is
found before all others of its length. -/
theorem longestPath_eq_of_first {p : List (Fin n)} (h : Route adj blocked p)
    (hstart : ∀ v ∈ p.head?, ∀ w < v, blocked[w] = true)
    (hfirst : p.IsChain fun a b => (adj a).head? = some b) :
    longestPath adj blocked p.length = p := by
  rw [longestPath_eq, min_eq_left h.length_le_count]
  cases p with
  | nil => rfl
  | cons v q =>
    obtain ⟨ps, hps⟩ := List.head?_eq_some_iff.1 (head?_allRoutes h (hstart v rfl) hfirst)
    have hshort : ∀ p ∈ ps, p.length ≤ (v :: q).length := fun p hp =>
      (mem_allRoutes.1 (hps ▸ List.mem_cons_of_mem _ hp)).2.2
    have hlonger : longer [] (v :: q) = v :: q := longer_of_lt (Nat.zero_lt_succ _)
    rw [hps, List.foldl_cons, hlonger, foldl_longer_of_le hshort]

/-- The path found is a route. -/
theorem route_longestPath (adj : Adjacency n) (blocked : Ledger Bool n) (limit : Nat) :
    Route adj blocked (longestPath adj blocked limit) := by
  rw [longestPath_eq]
  rcases List.mem_cons.1 (foldl_longer_mem [] (allRoutes adj blocked _)) with h | h
  · rw [h]
    exact .nil
  · exact route_of_mem_allRoutes h

end CouplingMap.Graph
