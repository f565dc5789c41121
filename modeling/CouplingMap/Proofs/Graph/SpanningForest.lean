import CouplingMap.Proofs.Graph.CutVertex
import Mathlib.Combinatorics.SimpleGraph.Acyclic

/-!
# What the records of a depth-first search say

The links to parents that a search leaves behind are a spanning forest, with one root for each
component. No edge of the graph runs between different branches, and the low of a vertex is the
least number that an edge leads to from its subtree.

* `LowLink.forest`: the tree edges, as a graph.
* `LowLink.Finished.isAcyclic_forest`, `LowLink.Finished.reachable_forest`: it is a spanning forest.
* `LowLink.Describes`: what records say of a graph; `LowLink.describes_run`: those of a search do.
-/

namespace CouplingMap.Graph.LowLink

open SimpleGraph

variable {n : Nat} {adj : Adjacency n} {G : SimpleGraph (Fin n)} {s : LowLink n}
  {a b u v w : Fin n}

/-- The tree edges. -/
def forest (s : LowLink n) : SimpleGraph (Fin n) where
  Adj a b := a ≠ b ∧ (s.parent[b] = some a ∨ s.parent[a] = some b)
  symm := ⟨fun _ _ h => ⟨h.1.symm, h.2.symm⟩⟩
  loopless := ⟨fun _ h => h.1 rfl⟩

/-- What records say of a graph. -/
structure Describes (s : LowLink n) (G : SimpleGraph (Fin n)) : Prop where
  /-- The numbers of the vertices are those below `n`. -/
  numbered : ∃ time : Fin n → Fin n, time.Bijective ∧ ∀ u : Fin n, s.number[u] = some (time u : Nat)
  /-- The way from parent to parent comes to an end. -/
  wellFounded : WellFounded fun p u : Fin n => s.parent[u] = some p
  isAcyclic : s.forest.IsAcyclic
  forest_le : s.forest ≤ G
  /-- The forest joins all that the graph joins. -/
  reachable : ∀ u w, s.forest.Reachable u w ↔ G.Reachable u w
  /-- Every component has one root. -/
  root : ∀ c : G.ConnectedComponent, ∃! r : Fin n, r ∈ c.supp ∧ s.parent[r] = none
  /-- An edge joins a vertex to one above or below it. -/
  inLine : ∀ a b, G.Adj a b → s.Under a b ∨ s.Under b a
  /-- The low of a vertex is the least of its own number and of the numbers at the ends of the edges
  of its subtree that do not lead to a parent. -/
  low : ∀ v : Fin n, IsLeast
    ({k | s.number[v] = some k} ∪
      {k | ∃ u w : Fin n, s.Under v u ∧ G.Adj u w ∧ s.parent[u] ≠ some w ∧ s.number[w] = some k})
    s.low[v]

namespace Finished

/-- The numbers of the vertices are those below `n`. -/
theorem exists_time (hs : Finished adj s) : ∃ time : Fin n → Fin n,
    time.Bijective ∧ ∀ u : Fin n, s.number[u] = some (time u : Nat) := by
  have hlt (u : Fin n) : s.time u < n := (hs.valid.lt_next (hs.number u)).trans_le hs.valid.next_le
  refine ⟨fun u => ⟨s.time u, hlt u⟩, Finite.injective_iff_bijective.1 fun u w h => ?_, hs.number⟩
  have htime : s.time u = s.time w := congrArg Fin.val h
  exact hs.valid.injective (hs.number u) (htime ▸ hs.number w)

theorem wellFounded_parent (hs : Finished adj s) :
    WellFounded fun p u : Fin n => s.parent[u] = some p :=
  Subrelation.wf (fun h => hs.time_lt_of_parent h) (measure s.time).wf

theorem adj_forest (hs : Finished adj s) (h : s.parent[w] = some v) : s.forest.Adj v w := by
  refine ⟨?_, .inl h⟩
  rintro rfl
  exact Nat.lt_irrefl _ (hs.time_lt_of_parent h)

theorem reachable_of_under (hs : Finished adj s) (h : s.Under u w) : s.forest.Reachable u w := by
  induction h with
  | refl => exact .refl u
  | tail _ hp ih => exact ih.trans (hs.adj_forest hp).reachable

/-- Without the edge to its parent, a vertex leads to what hangs below it only. -/
theorem under_of_adj_deleteEdges (hw : s.parent[w] = some v)
    (h : (s.forest.deleteEdges {s(v, w)}).Adj a b) (ha : s.Under w a) : s.Under w b := by
  obtain ⟨⟨-, hb | hb⟩, hne⟩ := deleteEdges_adj.1 h
  · exact ha.trans (.of_parent hb)
  · by_cases haw : a = w
    · subst haw
      obtain rfl := Option.some.inj (hb.symm.trans hw)
      exact absurd Sym2.eq_swap hne
    · obtain ⟨p, hp, hwp⟩ := ha.exists_parent haw
      obtain rfl := Option.some.inj (hb.symm.trans hp)
      exact hwp

/-- Every tree edge is a bridge of the forest, so there are no cycles. -/
theorem isAcyclic_forest (hs : Finished adj s) : s.forest.IsAcyclic := by
  have hbridge {v w : Fin n} (hw : s.parent[w] = some v) : s.forest.IsBridge s(v, w) := fun h => by
    have hiff := iff_of_reachable (P := fun x => s.Under w x)
      (fun _ _ => under_of_adj_deleteEdges hw) h
    exact hs.not_under_parent hw (hiff.2 (.refl s w))
  refine isAcyclic_iff_forall_adj_isBridge.2 fun v w h => ?_
  rcases h.2 with hw | hv
  · exact hbridge hw
  · exact Sym2.eq_swap ▸ hbridge hv

section Shape

variable (hs : Finished adj s) (hG : ∀ u w, w ∈ adj u ↔ G.Adj u w)

include hs hG

theorem forest_le : s.forest ≤ G := by
  rintro a b ⟨-, h | h⟩
  · exact hs.adj_of_parent hG h
  · exact (hs.adj_of_parent hG h).symm

/-- The forest joins all that the graph joins. -/
theorem reachable_forest : s.forest.Reachable u w ↔ G.Reachable u w := by
  refine ⟨fun h => h.mono (hs.forest_le hG), fun h => ?_⟩
  obtain ⟨r, hr, hru⟩ := hs.exists_root u
  have hrw : s.Under r w := (hs.under_root_iff hG hr h).1 hru
  exact (hs.reachable_of_under hru).symm.trans (hs.reachable_of_under hrw)

/-- Every component has one root. -/
theorem existsUnique_root (c : G.ConnectedComponent) :
    ∃! r : Fin n, r ∈ c.supp ∧ s.parent[r] = none := by
  obtain ⟨u, rfl⟩ := c.exists_rep
  obtain ⟨r, hr, hru⟩ := hs.exists_root u
  have hreach : G.Reachable r u := (hs.reachable_forest hG).1 (hs.reachable_of_under hru)
  refine ⟨r, ⟨ConnectedComponent.sound hreach, hr⟩, ?_⟩
  rintro x ⟨hx, hxroot⟩
  have hxr : G.Reachable r x := hreach.trans (ConnectedComponent.exact hx).symm
  exact (eq_root hxroot ((hs.under_root_iff hG hr hxr).1 (.refl s r))).symm

/-- What records say of a graph once the search is finished. -/
theorem describes : s.Describes G where
  numbered := hs.exists_time
  wellFounded := hs.wellFounded_parent
  isAcyclic := hs.isAcyclic_forest
  forest_le := hs.forest_le hG
  reachable _ _ := hs.reachable_forest hG
  root := hs.existsUnique_root hG
  inLine _ _ h := hs.under_or_under hG h
  low v := by
    convert (hs.settled v).low using 1
    ext k
    refine or_congr_right (exists_congr fun a => exists_congr fun b => and_congr_right fun _ => ?_)
    rw [← hG]
    exact and_congr_right fun hb => (and_iff_right fun h => h ▸ hb).symm

end Shape

end Finished

/-- A search numbers all vertices, and leaves a spanning forest with one root for each component, in
which every edge of the graph runs up or down, and the lows of the vertices. It ends by itself,
however many steps it may take. -/
theorem describes_run (hG : ∀ u w, w ∈ adj u ↔ G.Adj u w) :
    (run adj).Describes G ∧ ∀ bound, effort adj ≤ bound →
      (List.finRange n).foldl (exploreRoot adj bound) (start n) = run adj :=
  ⟨(finished_run adj).describes hG, fun _ h => foldl_exploreRoot_of_le .start _ h⟩

/-- Two triangles that share a vertex, with a path from it, and an edge apart. -/
def bowTie : Graph 9 :=
  [(0, 1), (1, 2), (2, 0), (2, 3), (3, 4), (4, 2), (2, 5), (5, 6), (7, 8)].foldl
    (fun g e => g.join e.1 e.2) (empty 9)

/-- The numbers follow the way of the search. The second triangle leads back to the shared vertex,
the path and the edge apart lead nowhere. -/
theorem describes_run_bowTie :
    (∀ u w, w ∈ bowTie.neighbours u ↔ bowTie.shape.Adj u w) ∧
    (run bowTie.neighbours).Describes bowTie.shape ∧
    (run bowTie.neighbours).number.toList = [0, 1, 2, 5, 6, 3, 4, 7, 8].map some ∧
    (run bowTie.neighbours).low.toList = [0, 0, 0, 2, 2, 3, 4, 7, 8] :=
  ⟨fun _ _ => mem_neighbours, (describes_run fun _ _ => mem_neighbours).1, by decide, by decide⟩

end CouplingMap.Graph.LowLink
