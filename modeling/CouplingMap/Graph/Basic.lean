import CouplingMap.Ledger

/-!
# Undirected graphs

A graph on the vertices `0` to `n - 1` has a list of edges without loops and with at most one
edge between two vertices. The order in which edges are laid decides the order in which searches
visit neighbours, and nothing else.

* `Graph.join`: lays an edge, unless the vertices are equal or joined already.
* `Graph.Joined`: two vertices have an edge between them.
* `Graph.neighbours`: the vertices joined to one, in visiting order.
* `Graph.table`, `lookup`: the same from a table that is filled once.
-/

namespace CouplingMap

/-- A graph without loops and multiple edges. -/
structure Graph (n : Nat) where
  /-- The edges, the latest first, each with its ends in the order in which they were given. -/
  laid : List (Fin n × Fin n)
  loopless : ∀ e ∈ laid, e.1 ≠ e.2
  simple : laid.Pairwise fun e f => f ≠ e ∧ f ≠ e.swap
deriving DecidableEq

/-- The vertices next to each vertex, in the order in which a search visits them. -/
abbrev Adjacency (n : Nat) := Fin n → List (Fin n)

namespace Graph

variable {n : Nat}

/-- The graph without edges. -/
def empty (n : Nat) : Graph n := ⟨[], by simp, .nil⟩

/-- The edges in the order in which they were laid. -/
def edges (g : Graph n) : List (Fin n × Fin n) := g.laid.reverse

/-- Two vertices have an edge between them, in either orientation. -/
def Joined (g : Graph n) (a b : Fin n) : Prop := (a, b) ∈ g.laid ∨ (b, a) ∈ g.laid

/-- Whether an edge runs between two vertices, in either orientation. -/
def runsBetween (a b : Fin n) (e : Fin n × Fin n) : Bool :=
  e.1 = a && e.2 = b || e.1 = b && e.2 = a

instance (g : Graph n) (a b : Fin n) : Decidable (g.Joined a b) :=
  decidable_of_iff (g.laid.any (runsBetween a b) = true) (by
    simp only [Joined, runsBetween, List.any_eq_true, Bool.or_eq_true, Bool.and_eq_true,
      decide_eq_true_eq]
    constructor
    · rintro ⟨⟨x, y⟩, h, ⟨rfl, rfl⟩ | ⟨rfl, rfl⟩⟩
      · exact Or.inl h
      · exact Or.inr h
    · rintro (h | h)
      · exact ⟨_, h, Or.inl ⟨rfl, rfl⟩⟩
      · exact ⟨_, h, Or.inr ⟨rfl, rfl⟩⟩)

/-- Lays an edge between two vertices that are neither equal nor joined. -/
def lay (g : Graph n) (a b : Fin n) (h : a ≠ b ∧ ¬ g.Joined a b) : Graph n where
  laid := (a, b) :: g.laid
  loopless := by
    intro e he
    rcases List.mem_cons.1 he with rfl | he
    · exact h.1
    · exact g.loopless e he
  simple := by
    refine List.pairwise_cons.2 ⟨?_, g.simple⟩
    rintro e he
    refine ⟨?_, ?_⟩
    · rintro rfl
      exact h.2 (Or.inl he)
    · rintro rfl
      exact h.2 (Or.inr he)

/-- Lays an edge between two vertices, unless they are equal or joined already. -/
def join (g : Graph n) (a b : Fin n) : Graph n :=
  if h : a ≠ b ∧ ¬ g.Joined a b then g.lay a b h else g

/-- The vertices joined to `v`: first along edges that start at `v`, then along edges that end
there, the latest edge first in both groups. -/
def neighbours (g : Graph n) (v : Fin n) : List (Fin n) :=
  (g.laid.filter fun e => e.1 = v).map Prod.snd ++ (g.laid.filter fun e => e.2 = v).map Prod.fst

/-- The other ends of the edges that start at each vertex, in order. -/
def ends (edges : List (Fin n × Fin n)) : Ledger (List (Fin n)) n :=
  Ledger.gather Prod.fst Prod.snd edges

theorem getElem_ends (edges : List (Fin n × Fin n)) (v : Fin n) :
    (ends edges)[v] = (edges.filter fun e => e.1 = v).map Prod.snd :=
  Ledger.getElem_gather ..

/-- The neighbours of every vertex, collected in one pass over the edges. -/
def table (g : Graph n) : Ledger (List (Fin n)) n :=
  let targets := ends g.laid
  let sources := ends (g.laid.map Prod.swap)
  Ledger.ofFn fun v => targets[v] ++ sources[v]

theorem getElem_table (g : Graph n) (v : Fin n) : g.table[v] = g.neighbours v := by
  rw [table, Ledger.getElem_ofFn, getElem_ends, getElem_ends, List.filter_map, List.map_map]
  rfl

/-- The neighbours of a vertex, looked up in a table. -/
def lookup (table : Ledger (List (Fin n)) n) : Adjacency n := fun v => table[v]

@[simp] theorem lookup_table (g : Graph n) : lookup g.table = g.neighbours := by
  funext v
  exact getElem_table g v

theorem Joined.symm {g : Graph n} {a b : Fin n} (h : g.Joined a b) : g.Joined b a := Or.symm h

theorem not_joined_self (g : Graph n) (a : Fin n) : ¬ g.Joined a a := by
  rintro (h | h) <;> exact g.loopless _ h rfl

@[simp] theorem not_joined_empty (a b : Fin n) : ¬ (empty n).Joined a b := by
  simp [Joined, empty]

/-- An edge joins its ends and changes nothing else. -/
theorem joined_lay {g : Graph n} {a b u v : Fin n} {h : a ≠ b ∧ ¬ g.Joined a b} :
    (g.lay a b h).Joined u v ↔ g.Joined u v ∨ (u = a ∧ v = b ∨ u = b ∧ v = a) := by
  simp only [Joined, lay, List.mem_cons, Prod.mk.injEq]
  grind

/-- Two vertices are joined, unless they are equal, and nothing else changes. -/
theorem joined_join {g : Graph n} {a b u v : Fin n} :
    (g.join a b).Joined u v ↔ g.Joined u v ∨ a ≠ b ∧ (u = a ∧ v = b ∨ u = b ∧ v = a) := by
  unfold join
  split
  · rename_i h
    simp [joined_lay, h.1]
  · rename_i h
    simp only [Joined] at h ⊢
    grind

/-- The neighbours of a vertex are the vertices joined to it. -/
theorem mem_neighbours {g : Graph n} {u v : Fin n} : v ∈ g.neighbours u ↔ g.Joined u v := by
  simp [neighbours, Joined]

end Graph

end CouplingMap
