import CouplingMap.Proofs.Graph.BreadthFirst
import Mathlib.Combinatorics.SimpleGraph.Metric

/-!
# A search for a goal finds a shortest path

A search that stops at its goal leaves marks with a way back, and marks the goal as the whole search
does. Back along the marks there is one vertex for each hop, down to the start, so that the path has
no more hops than any walk, and visits no vertex twice.

* `getElem_searchFor`: the goal has the mark of the whole search.
* `Traced.exists_trail`: the way back is a walk with the hops of the mark.
* `exists_pathTo?`: the path to a goal is a path with the least number of hops.
-/

namespace CouplingMap.Graph

variable {n : Nat} {adj : Adjacency n} {start goal w : Fin n} {hops bound k : Nat}
  {front : List (Fin n)} {marks : Marks n} {m : Mark n}

/-! ## Stopping at the goal -/

/-- What is marked keeps its mark in further rounds. -/
theorem rounds_old (bound hops : Nat) (front : List (Fin n)) (hm : marks[w] = some m) :
    (rounds adj bound hops front marks)[w] = some m := by
  induction bound generalizing hops front marks with
  | zero => exact hm
  | succ bound ih =>
    cases front with
    | nil => exact hm
    | cons u front => exact ih (hops + 1) _ ((Visits.round (u :: front) marks).old hm)

/-- Rounds that stop at the goal leave a way back, and mark the goal as all rounds do. -/
theorem Layered.roundsTo (h : Layered adj start hops front marks) (goal : Fin n) (bound : Nat) :
    Traced adj start (Graph.roundsTo adj goal bound hops front marks) ∧
      (Graph.roundsTo adj goal bound hops front marks)[goal] =
        (Graph.rounds adj bound hops front marks)[goal] := by
  induction bound generalizing hops front marks with
  | zero => exact ⟨h.traced, rfl⟩
  | succ bound ih =>
    cases front with
    | nil => exact ⟨h.traced, rfl⟩
    | cons u front =>
      by_cases hgoal : (u :: front).contains goal
      · -- The goal has been marked in the round before.
        obtain ⟨m, hm, -⟩ := h.front.1 (List.contains_iff_mem.1 hgoal)
        have hv : Visits (hops + 1)
            (fun v w => v ∈ (u :: front).takeWhile (fun w => w ≠ goal) ∧ w ∈ adj v) (marks, []) _ :=
          .round _ marks
        rw [Graph.roundsTo, if_pos hgoal]
        refine ⟨h.traced.visits hv fun v w ⟨hv, hadj⟩ => ⟨hadj, h.front.1 ?_⟩, ?_⟩
        · exact (List.takeWhile_sublist _).mem hv
        · exact (hv.old hm).trans (rounds_old (bound + 1) hops (u :: front) hm).symm
      · rw [Graph.roundsTo, if_neg hgoal]
        exact ih h.round

theorem traced_searchFor (adj : Adjacency n) (start goal : Fin n) :
    Traced adj start (searchFor adj start goal) :=
  ((Layered.initial adj start).roundsTo goal n).1

/-- The goal has the mark of the whole search. -/
theorem getElem_searchFor (adj : Adjacency n) (start goal : Fin n) :
    (searchFor adj start goal)[goal] = (search adj start)[goal] :=
  ((Layered.initial adj start).roundsTo goal n).2

/-- There is no path to a goal without a hop count. -/
theorem pathTo?_eq_none (h : (hopsFrom adj start)[goal] = none) :
    pathTo? (searchFor adj start goal) goal = none := by
  rw [getElem_hopsFrom, ← getElem_searchFor, Option.map_eq_none_iff] at h
  rw [pathTo?, h, Option.map_none]

/-! ## The way back -/

variable {G : SimpleGraph (Fin n)} (hG : ∀ u w, w ∈ adj u ↔ G.Adj u w)

include hG

/-- Back along the marks there is a walk from the start with the hops of the mark. -/
theorem Traced.exists_trail (h : Traced adj start marks) (hm : marks[w] = some m)
    (path : List (Fin n)) :
    ∃ q : G.Walk start w, q.length = m.hops ∧ trail marks m.hops w path = q.support ++ path := by
  induction hk : m.hops generalizing w m path with
  | zero =>
    rcases h hm with ⟨rfl, -⟩ | ⟨u, m', -, -, -, hhops⟩
    · exact ⟨.nil, rfl, rfl⟩
    · omega
  | succ k ih =>
    rcases h hm with ⟨-, rfl⟩ | ⟨u, m', hvia, hadj, hu, hhops⟩
    · contradiction
    · obtain rfl : m'.hops = k := by omega
      obtain ⟨q, hlength, htrail⟩ := ih hu (w :: path) rfl
      refine ⟨q.concat ((hG u w).1 hadj), by rw [q.length_concat, hlength], ?_⟩
      simp only [trail, hm, Option.bind_some, hvia, htrail, q.support_concat, List.append_assoc,
        List.singleton_append]

/-- A walk with a hop count is a path. -/
theorem isPath_of_hopsFrom (q : G.Walk start w) (h : (hopsFrom adj start)[w] = some q.length) :
    q.IsPath := by
  refine q.isPath_of_length_eq_dist (Nat.le_antisymm ?_ (SimpleGraph.dist_le q))
  obtain ⟨r, hr⟩ := q.reachable.exists_walk_length_eq_dist
  rw [← hr]
  exact (hopsFrom_eq_some.1 h).2 _ ((leads_iff hG).2 ⟨r, rfl⟩)

/-- The path to a goal runs along a path with its hop count. -/
theorem exists_pathTo? (h : (hopsFrom adj start)[goal] = some k) :
    ∃ q : G.Walk start goal, q.IsPath ∧ q.length = k ∧
      pathTo? (searchFor adj start goal) goal = some q.support := by
  have hmark := h
  rw [getElem_hopsFrom, ← getElem_searchFor, Option.map_eq_some_iff] at hmark
  obtain ⟨m, hm, rfl⟩ := hmark
  obtain ⟨q, hlength, htrail⟩ := (traced_searchFor adj start goal).exists_trail hG hm []
  refine ⟨q, isPath_of_hopsFrom hG q (hlength ▸ h), hlength, ?_⟩
  rw [pathTo?, hm, Option.map_some, htrail, List.append_nil]

end CouplingMap.Graph
