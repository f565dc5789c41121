import CouplingMap.Graph.Basic
import Mathlib.Combinatorics.SimpleGraph.Connectivity.Connected

/-!
# Walks that avoid a vertex

The shape of a graph is its relation of joined vertices; walks are walks in the shape.

* `Evading p u w`: a walk joins `u` and `w` and does not visit `p`.
* `Separator p`: two other vertices are joined, and every walk between them visits `p`.
* `Evading.mem_of_closed`: such a walk stays in a set that can be left through `p` only.
* `Evading.of_potential`: such a walk leads to a goal if a potential can go down without `p`.
* `separator_iff_neighbours`: a separator keeps two of its neighbours apart.
* `exists_walk_comap`: the walks of a graph whose vertices are numbered are those of the numbers.
-/

namespace CouplingMap

open SimpleGraph

/-- The relation of joined vertices. -/
def Graph.shape {n : Nat} (g : Graph n) : SimpleGraph (Fin n) where
  Adj := g.Joined
  symm := ⟨fun _ _ h => h.symm⟩
  loopless := ⟨fun a => g.not_joined_self a⟩

@[simp] theorem Graph.shape_adj {n : Nat} {g : Graph n} {a b : Fin n} :
    g.shape.Adj a b ↔ g.Joined a b := Iff.rfl

section Evading

variable {V : Type} {G : SimpleGraph V} {p u v w : V}

/-- A walk joins `u` and `w` without visiting `p`. -/
def Evading (G : SimpleGraph V) (p u w : V) : Prop := ∃ q : G.Walk u w, p ∉ q.support

/-- Two other vertices are joined, but only by walks that visit `p`. -/
def Separator (G : SimpleGraph V) (p : V) : Prop :=
  ∃ u w, u ≠ p ∧ w ≠ p ∧ G.Reachable u w ∧ ¬ Evading G p u w

namespace Evading

theorem refl (h : u ≠ p) : Evading G p u u := ⟨.nil, by simpa using h.symm⟩

theorem symm (h : Evading G p u w) : Evading G p w u := by
  obtain ⟨q, hq⟩ := h
  exact ⟨q.reverse, by simpa using hq⟩

theorem trans (h : Evading G p u v) (h' : Evading G p v w) : Evading G p u w := by
  obtain ⟨q, hq⟩ := h
  obtain ⟨r, hr⟩ := h'
  refine ⟨q.append r, ?_⟩
  rw [Walk.mem_support_append_iff]
  exact fun hp => hp.elim hq hr

instance : Trans (Evading G p) (Evading G p) (Evading G p) := ⟨trans⟩

/-- Joined vertices other than `p` are joined by the edge between them. -/
theorem of_adj (h : G.Adj u w) (hu : u ≠ p) (hw : w ≠ p) : Evading G p u w :=
  ⟨h.toWalk, by simp [hu.symm, hw.symm]⟩

theorem reachable (h : Evading G p u w) : G.Reachable u w := by
  obtain ⟨q, -⟩ := h
  exact ⟨q⟩

/-- A walk that evades `p` stays in a set whose edges lead into it or to `p`. -/
theorem mem_of_closed {S : Set V} (hS : ∀ a ∈ S, ∀ b, G.Adj a b → b ∈ S ∨ b = p)
    (h : Evading G p u w) (hu : u ∈ S) : w ∈ S := by
  obtain ⟨q, hq⟩ := h
  induction q with
  | nil => exact hu
  | cons hadj q ih =>
    rw [Walk.support_cons, List.mem_cons, not_or] at hq
    refine ih ((hS _ hu _ hadj).resolve_right ?_) hq.2
    rintro rfl
    exact hq.2 q.start_mem_support

/-- A goal is reached without visiting `p` if elsewhere an edge that takes a potential down leads
on, and not to `p`. -/
theorem of_potential {f : V → Nat} (hw : w ≠ p)
    (hdown : ∀ a, a ≠ p → a ≠ w → ∃ b, b ≠ p ∧ G.Adj a b ∧ f b < f a) (hu : u ≠ p) :
    Evading G p u w := by
  induction hfu : f u using Nat.strong_induction_on generalizing u with
  | _ k ih =>
    by_cases huw : u = w
    · rw [huw]
      exact .refl hw
    · obtain ⟨b, hb, hadj, hlt⟩ := hdown u hu huw
      exact (of_adj hadj hu hb).trans (ih _ (hfu ▸ hlt) hb rfl)

end Evading

/-- Walks that evade `p` join all other vertices that are joined, unless `p` is a separator. -/
theorem not_separator_iff :
    ¬ Separator G p ↔ ∀ u w, u ≠ p → w ≠ p → G.Reachable u w → Evading G p u w := by
  simp only [Separator, not_exists, not_and, not_not]

/-- What the walks of a graph keep is the same for vertices that are joined. -/
theorem iff_of_reachable {P : V → Prop} (hP : ∀ a b, G.Adj a b → P a → P b)
    (h : G.Reachable u w) : P u ↔ P w := by
  obtain ⟨q⟩ := h
  induction q with
  | nil => rfl
  | cons hadj _ ih => exact ⟨fun hu => ih.1 (hP _ _ hadj hu), fun hw => hP _ _ hadj.symm (ih.2 hw)⟩

/-- A vertex that is joined to another one has a neighbour. -/
theorem exists_adj_of_reachable (h : G.Reachable u w) (hne : u ≠ w) : ∃ c, G.Adj u c := by
  obtain ⟨q⟩ := h
  cases q with
  | nil => exact absurd rfl hne
  | cons hadj _ => exact ⟨_, hadj⟩

/-- A walk to `p` passes a neighbour of `p` before. -/
theorem exists_evading_adj (h : G.Reachable u p) (hne : u ≠ p) :
    ∃ x, G.Adj p x ∧ Evading G p u x := by
  obtain ⟨q⟩ := h
  induction q with
  | nil => exact absurd rfl hne
  | @cons u v p hadj q ih =>
    by_cases hv : v = p
    · subst hv
      exact ⟨u, hadj.symm, .refl hne⟩
    · obtain ⟨x, hx, hvx⟩ := ih hv
      exact ⟨x, hx, (Evading.of_adj hadj hne hv).trans hvx⟩

/-- A separator keeps two of its neighbours apart. -/
theorem separator_iff_neighbours :
    Separator G p ↔ ∃ x y, G.Adj p x ∧ G.Adj p y ∧ ¬ Evading G p x y := by
  constructor
  · rintro ⟨u, w, hu, hw, ⟨q⟩, hn⟩
    have hp : p ∈ q.support := by_contra fun hp => hn ⟨q, hp⟩
    obtain ⟨r, r', -⟩ := Walk.mem_support_iff_exists_append.1 hp
    obtain ⟨x, hx, hux⟩ := exists_evading_adj ⟨r⟩ hu
    obtain ⟨y, hy, hwy⟩ := exists_evading_adj ⟨r'.reverse⟩ hw
    exact ⟨x, y, hx, hy, fun hxy => hn ((hux.trans hxy).trans hwy.symm)⟩
  · rintro ⟨x, y, hx, hy, hn⟩
    exact ⟨x, y, hx.ne', hy.ne', hx.symm.reachable.trans hy.reachable, hn⟩

/-- A separator has two neighbours. -/
theorem Separator.exists_ne (h : Separator G p) : ∃ x y, G.Adj p x ∧ G.Adj p y ∧ x ≠ y := by
  obtain ⟨x, y, hx, hy, hn⟩ := separator_iff_neighbours.1 h
  refine ⟨x, y, hx, hy, ?_⟩
  rintro rfl
  exact hn (.refl hx.ne')

/-- A separator has a neighbour. -/
theorem Separator.exists_adj (h : Separator G p) : ∃ a, G.Adj p a := by
  obtain ⟨x, -, hx, -⟩ := h.exists_ne
  exact ⟨x, hx⟩

end Evading

section Numbered

variable {V W : Type} {G : SimpleGraph W} {f : V → W} {p u w : V}

/-- A walk along numbers is a walk along what they stand for. -/
theorem exists_walk_of_comap (q : (G.comap f).Walk u w) :
    ∃ r : G.Walk (f u) (f w), r.support = q.support.map f :=
  ⟨q.map (Hom.comap f G), Walk.support_map ..⟩

theorem Evading.of_comap (hf : f.Injective) (h : Evading (G.comap f) p u w) :
    Evading G (f p) (f u) (f w) := by
  obtain ⟨q, hq⟩ := h
  obtain ⟨r, hr⟩ := exists_walk_of_comap q
  refine ⟨r, ?_⟩
  rw [hr, List.mem_map_of_injective hf]
  exact hq

section Range

variable (hf : f.Injective) (hrange : ∀ a b, G.Adj a b → a ∈ Set.range f)

include hf hrange

/-- A walk runs along numbers if every vertex with a neighbour has a number. -/
theorem exists_walk_comap (q : G.Walk (f u) (f w)) :
    ∃ r : (G.comap f).Walk u w, r.support.map f = q.support := by
  generalize ha : f u = a at q
  generalize hb : f w = b at q
  induction q generalizing u with
  | nil =>
    obtain rfl := hf (ha.trans hb.symm)
    exact ⟨.nil, by simp [ha]⟩
  | cons hadj q ih =>
    obtain ⟨v, rfl⟩ := hrange _ _ hadj.symm
    obtain ⟨r, hr⟩ := ih rfl hb
    subst ha
    exact ⟨.cons (comap_adj.2 hadj) r, by simp [hr]⟩

theorem evading_comap : Evading (G.comap f) p u w ↔ Evading G (f p) (f u) (f w) := by
  refine ⟨.of_comap hf, ?_⟩
  rintro ⟨q, hq⟩
  obtain ⟨r, hr⟩ := exists_walk_comap hf hrange q
  exact ⟨r, fun hp => hq (hr ▸ List.mem_map_of_mem hp)⟩

theorem reachable_comap : (G.comap f).Reachable u w ↔ G.Reachable (f u) (f w) := by
  refine ⟨fun h => h.map (Hom.comap f G), ?_⟩
  rintro ⟨q⟩
  obtain ⟨r, -⟩ := exists_walk_comap hf hrange q
  exact ⟨r⟩

/-- A vertex is a separator just if its number is one. -/
theorem separator_comap : Separator (G.comap f) p ↔ Separator G (f p) := by
  constructor
  · rintro ⟨u, w, hu, hw, hr, hn⟩
    exact ⟨f u, f w, hf.ne hu, hf.ne hw, (reachable_comap hf hrange).1 hr,
      fun h => hn ((evading_comap hf hrange).2 h)⟩
  · rintro ⟨a, b, ha, hb, hr, hn⟩
    have hne : a ≠ b := fun e => hn (e ▸ .refl ha)
    obtain ⟨c, hc⟩ := exists_adj_of_reachable hr hne
    obtain ⟨e, he⟩ := exists_adj_of_reachable hr.symm hne.symm
    obtain ⟨u, rfl⟩ := hrange a c hc
    obtain ⟨w, rfl⟩ := hrange b e he
    exact ⟨u, w, fun h => ha (h ▸ rfl), fun h => hb (h ▸ rfl), (reachable_comap hf hrange).2 hr,
      fun h => hn ((evading_comap hf hrange).1 h)⟩

end Range

end Numbered

end CouplingMap
