import CouplingMap.Proofs.Graph.Explore
import Mathlib.Algebra.BigOperators.Fin
import Mathlib.Algebra.Order.BigOperators.Group.Finset

/-!
# Depth-first search with a stack

* `LowLink.Tries`: the search tries some neighbours of the last vertex of its stack, in a number of
  steps that is told by the vertices met on the way. `tries_foldl` says that it comes to try all.
* `LowLink.search_root`: the search of a component is the recursion.
* `LowLink.finished_run`: after the search every vertex has a number and is settled.
-/

namespace CouplingMap.Graph.LowLink

variable {n : Nat} {adj : Adjacency n} {root : Fin n} {s t r : LowLink n} {u v w : Fin n}
  {j k : Nat} {above : Option (Fin n)} {tried : List (Fin n)}

/-! ## The number of steps -/

/-- The steps that the vertices not met yet will take. -/
def cost (adj : Adjacency n) (s : LowLink n) : Nat :=
  ∑ u : Fin n, if s.number[u] = none then (adj u).length + 1 else 0

theorem cost_le_effort (adj : Adjacency n) (s : LowLink n) : cost adj s ≤ effort adj := by
  have heffort : effort adj = ∑ u : Fin n, ((adj u).length + 1) := by
    rw [Fin.sum_univ_def, List.sum_eq_foldl, List.foldl_map]
    rfl
  rw [heffort]
  refine Finset.sum_le_sum fun u _ => ?_
  split
  · exact Nat.le_refl _
  · exact Nat.zero_le _

theorem cost_meets (hm : Meets above w s t) :
    cost adj s = cost adj t + ((adj w).length + 1) := by
  rw [cost, cost, ← Finset.add_sum_erase _ _ (Finset.mem_univ w),
    ← Finset.add_sum_erase Finset.univ _ (Finset.mem_univ w), if_pos hm.new, hm.number, if_pos rfl,
    if_neg (by simp), Nat.zero_add, Nat.add_comm]
  congr 1
  refine Finset.sum_congr rfl fun u hu => ?_
  rw [hm.number, if_neg (Finset.ne_of_mem_erase hu).symm]

theorem cost_touches (ht : Touches v s t) : cost adj t = cost adj s := by
  simp only [cost, ht.number]

/-! ## The stack and the recursion -/

theorem search_nil (adj : Adjacency n) (root : Fin n) (bound : Nat) (s : LowLink n) :
    search adj root bound [] s = s := by
  cases bound <;> rfl

theorem number_glance (s : LowLink n) (v w : Fin n) (k : Nat) :
    (s.glance v w k).number = s.number := by
  unfold glance
  split <;> rfl

theorem next_glance (s : LowLink n) (v w : Fin n) (k : Nat) : (s.glance v w k).next = s.next := by
  unfold glance
  split <;> rfl

theorem cost_glance (s : LowLink n) (v w : Fin n) (k : Nat) :
    cost adj (s.glance v w k) = cost adj s := by
  simp only [cost, number_glance]

/-- The search tries the neighbours `ws` of the last vertex of the stack, which leads from some
records to others. Every step is paid by an edge tried or a vertex met. -/
def Tries (adj : Adjacency n) (root v : Fin n) (below : List (Fin n × List (Fin n)))
    (ws : List (Fin n)) (t r : LowLink n) : Prop :=
  ∃ k, k + cost adj r = ws.length + cost adj t ∧
    ∀ m, search adj root (k + m) ((v, ws) :: below) t = search adj root m ((v, []) :: below) r

namespace Tries

variable {below : List (Fin n × List (Fin n))} {ws : List (Fin n)}

theorem nil : Tries adj root v below [] t t := ⟨0, rfl, fun m => by rw [Nat.zero_add]⟩

/-- A vertex that was met before takes one step. -/
theorem glance (hn : t.number[w] = some k) (h : Tries adj root v below ws (t.glance v w k) r) :
    Tries adj root v below (w :: ws) t r := by
  obtain ⟨i, hcost, hi⟩ := h
  rw [cost_glance] at hcost
  refine ⟨i + 1, ?_, fun m => ?_⟩
  · rw [List.length_cons]
    omega
  · rw [← hi m, show i + 1 + m = i + m + 1 by omega, search, hn]

/-- A new vertex is explored on top of the stack and backed out of. -/
theorem descend {x : LowLink n} (hn : t.number[w] = none) (hv : x.number[v] = some k)
    (hx : Tries adj root w ((v, ws) :: below) (adj w) (t.descend root v w) x)
    (h : Tries adj root v below ws (x.backOut root w ((v, ws) :: below)) r) :
    Tries adj root v below (w :: ws) t r := by
  obtain ⟨i, hcosti, hi⟩ := hx
  obtain ⟨k, hcost, hk⟩ := h
  rw [cost_touches (Touches.backOut hv root w below ws)] at hcost
  have hmeets : cost adj t = cost adj (t.descend root v w) + ((adj w).length + 1) :=
    cost_meets (meets_descend hn root v)
  refine ⟨i + k + 2, ?_, fun m => ?_⟩
  · rw [List.length_cons]
    omega
  · rw [← hk m, show i + k + 2 + m = i + (k + m + 1) + 1 by omega, search, hn]
    dsimp only
    rw [hi, search]

end Tries

/-- A stack comes to try all neighbours of its last vertex, as the recursion does. -/
theorem tries_foldl {depth : Nat} (hs : Valid adj s) (he : Entered root s v j) (ws : List (Fin n))
    (hws : ∀ w ∈ ws, w ∈ adj v) (ht : Trying adj root v s tried t) (hdepth : n < t.next + depth)
    (below : List (Fin n × List (Fin n))) :
    Tries adj root v below ws t (ws.foldl (tryEdge root (explore adj root depth) v) t) := by
  induction depth generalizing v s j t tried ws below with
  | zero =>
    have := ht.valid.next_le
    omega
  | succ depth ih =>
    induction ws generalizing t tried with
    | nil => exact .nil
    | cons w ws ihw =>
      have hw := hws w List.mem_cons_self
      have hws' : ∀ x ∈ ws, x ∈ adj v := fun x h => hws x (List.mem_cons_of_mem _ h)
      rw [List.foldl_cons]
      cases hn : t.number[w] with
      | some i =>
        have hstep : tryEdge root (explore adj root (depth + 1)) v t w = t.glance v w i := by
          rw [tryEdge, hn]
        rw [hstep]
        exact .glance hn (ihw hws' (ht.glance hs he hw hn) (by rwa [next_glance]))
      | none =>
        have hm := meets_descend hn root v
        have hvalid := Trying.valid_descend he ht hw hn
        have hentered := Trying.entered_descend he ht hn
        have hdeep : n < (t.descend root v w).next + depth := by
          rw [hm.next]
          omega
        have hx : Trying adj root w (t.descend root v w) (adj w)
            (explore adj root (depth + 1) w (t.descend root v w)) :=
          trying_explore hvalid hentered (by omega)
        have hv := (Trying.later_forth hn hx).number (ht.later.number he.number)
        have hstep : tryEdge root (explore adj root (depth + 1)) v t w =
            (explore adj root (depth + 1) w (t.descend root v w)).backOut root w
              ((v, ws) :: below) := by
          rw [tryEdge, hn]
          rfl
        rw [hstep]
        refine .descend hn hv ?_ (ihw hws' (ht.forth hs he hw hn hx below ws) ?_)
        · rw [explore_succ]
          exact ih hvalid hentered (adj w) (fun _ => id) (.entered hvalid hentered) hdeep
            ((v, ws) :: below)
        · have := hx.later.next_le
          rw [(Touches.backOut hv root w below ws).next]
          omega

/-! ## All components -/

theorem meets_root (hv : s.number[v] = none) : Meets none v s (s.meetRoot v) := by
  have h : Meets none v { s with branches := 0 } (s.meetRoot v) := meets_meet hv
  exact ⟨hv, h.number, h.low, h.parent, h.cut, h.next⟩

theorem valid_root (hs : Valid adj s) (hv : s.number[v] = none) : Valid adj (s.meetRoot v) :=
  hs.meets (meets_root hv) (by simp)

theorem entered_root (hs : Valid adj s) (hv : s.number[v] = none) :
    Entered v (s.meetRoot v) v s.next := by
  have hm := meets_root hv
  have hnum : (s.meetRoot v).number[v] = some s.next := by rw [hm.number, if_pos rfl]
  refine ⟨hnum, hm.next, ?_, ?_, ?_, ⟨_, hnum⟩, fun _ => rfl⟩
  · rw [hm.low, if_pos rfl]
  · rw [hm.cut, hs.cut hv]
  · simp only [hm.parent, if_pos]

/-- The search of a component is the recursion, however many more steps it may take. -/
theorem search_root (hs : Valid adj s) (hv : s.number[v] = none) {bound : Nat}
    (hbound : effort adj ≤ bound) :
    search adj v bound [(v, adj v)] (s.meetRoot v) = explore adj v (n + 1) v (s.meetRoot v) := by
  have hm := meets_root hv
  have hvalid := valid_root hs hv
  have hentered := entered_root hs hv
  have hdepth : n < (s.meetRoot v).next + n := by
    rw [hm.next]
    omega
  obtain ⟨k, hcost, hk⟩ := tries_foldl hvalid hentered (adj v) (fun _ => id)
    (.entered hvalid hentered) hdepth []
  have hle := (cost_le_effort adj s).trans hbound
  rw [cost_meets hm] at hle
  obtain ⟨m, hm⟩ : ∃ m, bound = k + (m + 1) := ⟨bound - k - 1, by omega⟩
  rw [explore_succ, hm, hk, search, search_nil]
  rfl

/-- The root is marked just when it has two children. -/
theorem cut_judge (s : LowLink n) (v : Fin n) :
    (s.judge v).cut[v] = true ↔ s.cut[v] = true ∨ 1 < s.branches := by
  unfold judge
  split
  · rename_i h
    rw [cut_mark, if_pos rfl]
    simp [h]
  · rename_i h
    simp [h]

theorem low_judge (s : LowLink n) (v : Fin n) : (s.judge v).low = s.low := by
  unfold judge
  split <;> rfl

theorem touches_judge (hv : s.number[v] = some j) : Touches v s (s.judge v) := by
  unfold judge
  split
  · exact .mark hv
  · exact ⟨⟨j, hv⟩, fun _ => rfl, fun _ _ => rfl, fun _ => rfl, fun _ _ => rfl, rfl, rfl⟩

/-- A root is settled when all its neighbours were tried and its children were counted. -/
theorem Trying.settled_judge (hs : Valid adj s) (he : Entered v s v j)
    (ht : Trying adj v v s (adj v) t) : Settled adj (t.judge v) v := by
  have hv := ht.later.number he.number
  have htouch := touches_judge hv
  refine ⟨?_, ?_, ?_, ?_⟩
  · intro b hb
    rw [htouch.number]
    exact ht.met b hb
  · intro b hb i k hi hk hlt
    rw [htouch.number] at hi hk
    obtain rfl := Option.some.inj (hv.symm.trans hi)
    exact htouch.under_iff.2 (ht.under_of_lt hs he hk hlt)
  · simp only [low_judge, htouch.sees_iff]
    exact ht.low
  · have hp : (t.judge v).parent[v] = none := by
      rw [htouch.parent, ht.later.parent he.number, he.parent]
    rw [cut_judge, ht.cut, ShowsCut, hp, htouch.kids_eq, ht.branches, if_pos rfl]
    simp

/-- Some vertices were searched from, and everything that was met is settled. -/
structure Searched (adj : Adjacency n) (tried : List (Fin n)) (s : LowLink n) : Prop where
  valid : Valid adj s
  settled : ∀ {u : Fin n} {k : Nat}, s.number[u] = some k → Settled adj s u
  met : ∀ u ∈ tried, ∃ k, s.number[u] = some k

theorem Searched.exploreRoot (hs : Searched adj tried s) (v : Fin n) :
    Searched adj (tried ++ [v]) (exploreRoot adj (effort adj) s v) := by
  unfold LowLink.exploreRoot
  split
  · rename_i hv
    refine ⟨hs.valid, hs.settled, fun u hu => ?_⟩
    rcases List.mem_append.1 hu with hu | hu
    · exact hs.met u hu
    · rw [List.mem_singleton.1 hu]
      exact Option.isSome_iff_exists.1 hv
  · rename_i hv
    have hv : s.number[v] = none := by simpa using hv
    have hvalid := valid_root hs.valid hv
    have hentered := entered_root hs.valid hv
    have ht : Trying adj v v (s.meetRoot v) (adj v) (explore adj v (n + 1) v (s.meetRoot v)) :=
      trying_explore hvalid hentered (by omega)
    rw [search_root hs.valid hv (Nat.le_refl _)]
    generalize explore adj v (n + 1) v (s.meetRoot v) = t at ht
    have htouch := touches_judge (ht.later.number hentered.number)
    have hjudged := ht.valid.touches htouch
    have hlater : Extends none s (t.judge v) :=
      (Extends.of_meets (meets_root hv) ht.later).touches_of htouch (by simp [hv])
    refine ⟨hjudged, ?_, ?_⟩
    · intro u k hu
      cases hi : s.number[u] with
      | some i =>
        refine hlater.settled hs.valid hjudged hi (by simp) fun a ha => ?_
        obtain ⟨l, hl⟩ := hs.valid.met_of_under ha hi
        exact hs.settled hl
      | none =>
        by_cases huv : v = u
        · exact huv ▸ ht.settled_judge hvalid hentered
        · rw [htouch.number] at hu
          have hnone : (s.meetRoot v).number[u] = none := by
            rw [(meets_root hv).number, if_neg huv, hi]
          exact (ht.settled_extend hvalid hentered htouch.later hjudged hnone hu).2
    · intro u hu
      rcases List.mem_append.1 hu with hu | hu
      · obtain ⟨k, hk⟩ := hs.met u hu
        exact ⟨k, hlater.number hk⟩
      · rw [List.mem_singleton.1 hu, htouch.number]
        exact ⟨_, ht.later.number hentered.number⟩

/-- The search of a component ends by itself: it does the same if it may take more steps. -/
theorem exploreRoot_of_le (hs : Valid adj s) (v : Fin n) {bound : Nat}
    (hbound : effort adj ≤ bound) :
    exploreRoot adj bound s v = exploreRoot adj (effort adj) s v := by
  unfold exploreRoot
  split
  · rfl
  · rename_i hv
    have hv : s.number[v] = none := by simpa using hv
    rw [search_root hs hv hbound, search_root hs hv (Nat.le_refl _)]

/-- What holds of the records after the search. -/
structure Finished (adj : Adjacency n) (s : LowLink n) : Prop where
  valid : Valid adj s
  settled : ∀ u, Settled adj s u
  met : ∀ u : Fin n, ∃ k, s.number[u] = some k

theorem searched_foldl (hs : Searched adj tried s) (vs : List (Fin n)) :
    Searched adj (tried ++ vs) (vs.foldl (exploreRoot adj (effort adj)) s) := by
  induction vs generalizing tried s with
  | nil => simpa using hs
  | cons v vs ih =>
    have := ih (hs.exploreRoot v)
    rwa [List.append_assoc] at this

/-- The search ends by itself: it does the same if it may take more steps. -/
theorem foldl_exploreRoot_of_le (hs : Searched adj tried s) (vs : List (Fin n)) {bound : Nat}
    (hbound : effort adj ≤ bound) :
    vs.foldl (exploreRoot adj bound) s = vs.foldl (exploreRoot adj (effort adj)) s := by
  induction vs generalizing tried s with
  | nil => rfl
  | cons v vs ih =>
    rw [List.foldl_cons, List.foldl_cons, exploreRoot_of_le hs.valid v hbound]
    exact ih (hs.exploreRoot v)

theorem Searched.start : Searched adj [] (start n) := ⟨.start, by simp [LowLink.start], by simp⟩

/-- After the search every vertex has a number and is settled. -/
theorem finished_run (adj : Adjacency n) : Finished adj (run adj) := by
  have hstart : Searched adj [] (LowLink.start n) := .start
  have hrun := searched_foldl hstart (List.finRange n)
  refine ⟨hrun.valid, fun u => ?_, fun u => hrun.met u (by simp)⟩
  obtain ⟨k, hk⟩ := hrun.met u (by simp)
  exact hrun.settled hk

end CouplingMap.Graph.LowLink
