import CouplingMap.Proofs.Graph.Walk
import Mathlib.Combinatorics.SimpleGraph.Hasse

/-!
# Separators of products and paths

In a product the vertices have a coordinate for every factor, and an edge changes one coordinate
along an edge of its factor. Two edges from a vertex that change different coordinates are sides of
a square, so there is a way around the vertex.

* `productGraph`: the product of a family of graphs.
* `not_separator_product`: a vertex of a product is no separator if edges of two factors lead on.
* `separator_product_iff`: the product of a graph with single vertices has the same separators.
* `separator_pathGraph_iff`: the separators of a path are its inner vertices.
-/

namespace CouplingMap

open SimpleGraph Function

/-! ## Products -/

section Product

variable {ι : Type} {V : ι → Type} {G : ∀ i, SimpleGraph (V i)} {p : ∀ i, V i} {i j k : ι}

/-- The product of a family of graphs: an edge changes one coordinate, along an edge. -/
def productGraph (G : ∀ i, SimpleGraph (V i)) : SimpleGraph (∀ i, V i) where
  Adj f g := ∃ i, (G i).Adj (f i) (g i) ∧ ∀ j ≠ i, f j = g j
  symm := ⟨fun _ _ ⟨i, hi, hsame⟩ => ⟨i, hi.symm, fun j hj => (hsame j hj).symm⟩⟩
  loopless := ⟨fun _ ⟨i, hi, _⟩ => (G i).loopless.irrefl _ hi⟩

variable [DecidableEq ι]

theorem productGraph_adj_update {a : V i} (h : (G i).Adj (p i) a) :
    (productGraph G).Adj p (update p i a) := by
  refine ⟨i, by rwa [update_self], fun j hj => ?_⟩
  rw [update_of_ne hj]

theorem exists_update_of_adj {q : ∀ i, V i} (h : (productGraph G).Adj p q) :
    ∃ i, ∃ a, (G i).Adj (p i) a ∧ q = update p i a := by
  obtain ⟨i, hi, hsame⟩ := h
  exact ⟨i, q i, hi, eq_update_iff.2 ⟨rfl, fun j hj => (hsame j hj).symm⟩⟩

/-- Edges along different coordinates are two sides of a square, whose other sides lead around the
corner. -/
theorem evading_of_ne (hij : i ≠ j) {a : V i} {b : V j} (ha : (G i).Adj (p i) a)
    (hb : (G j).Adj (p j) b) : Evading (productGraph G) p (update p i a) (update p j b) := by
  have hcomm : update (update p i a) j b = update (update p j b) i a := update_comm hij a b p
  have hopposite : update (update p i a) j b ≠ p := fun h => by
    have hj := congrFun h j
    rw [update_self] at hj
    exact hb.ne' hj
  have hpa := productGraph_adj_update ha
  have hpb := productGraph_adj_update hb
  have haz : (productGraph G).Adj (update p i a) (update (update p i a) j b) :=
    productGraph_adj_update (by rwa [update_of_ne hij.symm])
  have hbz : (productGraph G).Adj (update p j b) (update (update p i a) j b) :=
    hcomm ▸ productGraph_adj_update (by rwa [update_of_ne hij])
  exact (Evading.of_adj haz hpa.ne' hopposite).trans (Evading.of_adj hbz hpb.ne' hopposite).symm

/-- A vertex is no separator of a product if, whatever the coordinate, an edge changes another. -/
theorem not_separator_product (h : ∀ i, ∃ k ≠ i, ∃ c, (G k).Adj (p k) c) :
    ¬ Separator (productGraph G) p := by
  rw [separator_iff_neighbours]
  rintro ⟨x, y, hx, hy, hn⟩
  obtain ⟨i, a, ha, rfl⟩ := exists_update_of_adj hx
  obtain ⟨j, b, hb, rfl⟩ := exists_update_of_adj hy
  refine hn ?_
  by_cases hij : i = j
  · -- The way between two edges along one coordinate leads over an edge along another.
    subst hij
    obtain ⟨k, hk, c, hc⟩ := h i
    exact (evading_of_ne hk.symm ha hc).trans (evading_of_ne hk hc hb)
  · exact evading_of_ne hij ha hb

omit [DecidableEq ι] in
/-- A vertex is given by one coordinate if the other factors have a single vertex. -/
theorem coordinate_injective (h : ∀ j ≠ i, Subsingleton (V j)) :
    Injective fun f : ∀ i, V i => f i := by
  intro f g hfg
  funext j
  by_cases hj : j = i
  · subst hj
    exact hfg
  · exact (h j hj).elim _ _

/-- Factors with a single vertex do not count. -/
theorem separator_product_iff (h : ∀ j ≠ i, Subsingleton (V j)) :
    Separator (productGraph G) p ↔ Separator (G i) (p i) := by
  have hcomap : productGraph G = (G i).comap fun f : ∀ i, V i => f i := by
    ext f g
    constructor
    · rintro ⟨j, hj, -⟩
      by_cases hji : j = i
      · subst hji
        exact hj
      · exact absurd ((h j hji).elim _ _) hj.ne
    · exact fun hi => ⟨i, hi, fun j hj => (h j hj).elim _ _⟩
  rw [hcomap]
  exact separator_comap (coordinate_injective h) fun a _ _ => ⟨update p i a, update_self ..⟩

end Product

/-- With three factors an edge runs along one coordinate, and the other two agree. -/
theorem productGraph_adj_three {V : Fin 3 → Type} {G : ∀ i, SimpleGraph (V i)} {f g : ∀ i, V i} :
    (productGraph G).Adj f g ↔ (G 0).Adj (f 0) (g 0) ∧ f 1 = g 1 ∧ f 2 = g 2 ∨
      (G 1).Adj (f 1) (g 1) ∧ f 0 = g 0 ∧ f 2 = g 2 ∨
      (G 2).Adj (f 2) (g 2) ∧ f 0 = g 0 ∧ f 1 = g 1 := by
  simp [productGraph, Fin.exists_fin_succ, Fin.forall_fin_succ]

/-! ## Paths -/

/-- A vertex of a path has a neighbour, unless it is the only one. -/
theorem exists_pathGraph_adj {n : Nat} (h : n ≠ 1) (v : Fin n) : ∃ c, (pathGraph n).Adj v c := by
  simp only [pathGraph_adj]
  by_cases hlast : v.val + 1 < n
  · exact ⟨⟨v + 1, hlast⟩, .inl rfl⟩
  · exact ⟨⟨v - 1, by omega⟩, .inr (by simp only; omega)⟩

/-- The separators of a path are the vertices other than its ends. -/
theorem separator_pathGraph_iff {n : Nat} {v : Fin n} :
    Separator (pathGraph n) v ↔ 0 < v.val ∧ v.val + 1 < n := by
  constructor
  · intro h
    obtain ⟨x, y, hx, hy, hne⟩ := h.exists_ne
    rw [pathGraph_adj] at hx hy
    rw [Ne, Fin.ext_iff] at hne
    omega
  · rintro ⟨hpos, hlt⟩
    refine separator_iff_neighbours.2 ⟨⟨v - 1, by omega⟩, ⟨v + 1, hlt⟩, ?_, ?_, fun h => ?_⟩
    · rw [pathGraph_adj]
      simp only
      omega
    · rw [pathGraph_adj]
      exact .inl rfl
    · -- Without the vertex itself no edge leads out of those before it.
      have hclosed : ∀ a ∈ {w | w < v}, ∀ b, (pathGraph n).Adj a b → b ∈ {w | w < v} ∨ b = v := by
        intro a ha b hab
        rw [pathGraph_adj] at hab
        simp only [Set.mem_ofPred_eq, Fin.lt_def, Fin.ext_iff] at ha ⊢
        omega
      have hmem := h.mem_of_closed hclosed (Fin.lt_def.2 (by simp only; omega))
      simp only [Set.mem_ofPred_eq, Fin.lt_def] at hmem
      omega

end CouplingMap
