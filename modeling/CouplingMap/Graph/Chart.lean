import CouplingMap.Graph.Basic

/-!
# Charts

A chart is a graph together with the vertices next to each vertex, so that it can be told without a
search through all edges whether two vertices are joined.

* `Chart.join`: joins two vertices in the graph and on the chart.
* `Chart.joinAll`: joins many; `graph_joinAll` says that the graph is joined edge by edge.
-/

namespace CouplingMap.Graph

/-- A graph with the vertices next to each vertex. -/
structure Chart (n : Nat) where
  graph : Graph n
  near : Ledger (List (Fin n)) n
  mem_near : ∀ u v : Fin n, v ∈ near[u] ↔ graph.Joined u v

namespace Chart

variable {n : Nat}

/-- The chart without edges. -/
def empty (n : Nat) : Chart n where
  graph := Graph.empty n
  near := .replicate n []
  mem_near := by simp

theorem mem_note {near : Ledger (List (Fin n)) n} {u v a b : Fin n} :
    b ∈ (near.note u v)[a] ↔ b ∈ near[a] ∨ a = u ∧ b = v := by
  rw [Ledger.getElem_note]
  by_cases h : u = a
  · simp [h, or_comm]
  · simp [h, Ne.symm h]

/-- Joins two vertices, unless they are equal or joined already. -/
def join (c : Chart n) (a b : Fin n) : Chart n :=
  if h : a ≠ b ∧ b ∉ c.near[a] then
    { graph := c.graph.lay a b ⟨h.1, fun hj => h.2 ((c.mem_near a b).2 hj)⟩
      near := (c.near.note a b).note b a
      mem_near := by
        intro u v
        rw [mem_note, mem_note, c.mem_near, joined_lay, or_assoc] }
  else c

theorem graph_join (c : Chart n) (a b : Fin n) : (c.join a b).graph = c.graph.join a b := by
  unfold join Graph.join
  simp only [c.mem_near]
  split <;> rfl

/-- Joins the vertices of pairs in order. -/
def joinAll (c : Chart n) (ps : List (Fin n × Fin n)) : Chart n :=
  ps.foldl (fun c p => c.join p.1 p.2) c

/-- The graph of a chart is joined edge by edge. -/
theorem graph_joinAll (c : Chart n) (ps : List (Fin n × Fin n)) :
    (c.joinAll ps).graph = ps.foldl (fun g p => g.join p.1 p.2) c.graph := by
  induction ps generalizing c with
  | nil => rfl
  | cons p ps ih => exact (ih (c.join p.1 p.2)).trans (by rw [graph_join, List.foldl_cons])

end Chart

end CouplingMap.Graph
