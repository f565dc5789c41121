import CouplingMap.Proofs.Graph.Walk
import Mathlib.Combinatorics.SimpleGraph.DeleteEdges
import Mathlib.Data.Set.Card

/-!
# Components without a vertex

A separator is a vertex whose removal takes a component apart, so that there are more components
than before.

* `reachable_deleteIncidenceSet`: the vertices joined without `p` are those that walks join which
  evade `p`.
* `ncard_componentsOn_lt_iff`: there are more components without `p` just if `p` is a separator.
-/

namespace CouplingMap

open SimpleGraph

variable {V : Type} {G : SimpleGraph V} {S : Set V} {a b p : V}

/-- The components in which vertices of `S` lie. -/
def componentsOn (G : SimpleGraph V) (S : Set V) : Set G.ConnectedComponent :=
  G.connectedComponentMk '' S

/-- A walk without `p` evades it. -/
theorem Evading.of_reachable (h : (G.deleteIncidenceSet p).Reachable a b) (ha : a ≠ p) :
    Evading G p a b := by
  obtain ⟨q⟩ := h
  induction q with
  | nil => exact .refl ha
  | cons hadj _ ih =>
    obtain ⟨hG, -, hp⟩ := deleteIncidenceSet_adj.1 hadj
    exact (Evading.of_adj hG ha hp).trans (ih hp)

/-- The vertices joined without `p` are those that walks join which evade `p`. -/
theorem reachable_deleteIncidenceSet (ha : a ≠ p) :
    (G.deleteIncidenceSet p).Reachable a b ↔ Evading G p a b := by
  refine ⟨fun h => .of_reachable h ha, ?_⟩
  rintro ⟨q, hq⟩
  clear ha
  induction q with
  | nil => exact .refl _
  | cons hadj q ih =>
    rw [Walk.support_cons, List.mem_cons, not_or] at hq
    have hne : _ ≠ p := fun e => hq.2 (e ▸ q.start_mem_support)
    exact (deleteIncidenceSet_adj.2 ⟨hadj, Ne.symm hq.1, hne⟩).reachable.trans (ih hq.2)

/-- Without `p` components become smaller; this is the component of which one was a part. -/
def wholeComponent (G : SimpleGraph V) (p : V) :
    (G.deleteIncidenceSet p).ConnectedComponent → G.ConnectedComponent :=
  ConnectedComponent.map (Hom.ofLE (G.deleteIncidenceSet_le p))

theorem wholeComponent_mk (a : V) :
    wholeComponent G p ((G.deleteIncidenceSet p).connectedComponentMk a) =
      G.connectedComponentMk a := rfl

theorem image_wholeComponent (G : SimpleGraph V) (S : Set V) (p : V) :
    wholeComponent G p '' componentsOn (G.deleteIncidenceSet p) S = componentsOn G S := by
  simp only [componentsOn, Set.image_image, wholeComponent_mk]

section Removal

variable (hS : ∀ a b, G.Adj a b → a ∈ S)

include hS

/-- No component has two parts without `p` just if `p` is no separator. -/
theorem injOn_wholeComponent :
    Set.InjOn (wholeComponent G p) (componentsOn (G.deleteIncidenceSet p) (S \ {p})) ↔
      ¬ Separator G p := by
  constructor
  · rintro hinj ⟨u, w, hu, hw, hr, hn⟩
    have hne : u ≠ w := fun e => hn (e ▸ .refl hu)
    obtain ⟨a, ha⟩ := exists_adj_of_reachable hr hne
    obtain ⟨b, hb⟩ := exists_adj_of_reachable hr.symm hne.symm
    have heq := hinj ⟨u, ⟨hS u a ha, hu⟩, rfl⟩ ⟨w, ⟨hS w b hb, hw⟩, rfl⟩
      (ConnectedComponent.sound hr)
    exact hn ((reachable_deleteIncidenceSet hu).1 (ConnectedComponent.exact heq))
  · rintro hsep _ ⟨u, ⟨-, hu⟩, rfl⟩ _ ⟨w, ⟨-, hw⟩, rfl⟩ heq
    have hr : G.Reachable u w := ConnectedComponent.exact heq
    have hev := not_separator_iff.1 hsep u w hu hw hr
    exact ConnectedComponent.sound ((reachable_deleteIncidenceSet hu).2 hev)

/-- A vertex with a neighbour is in a component with another vertex. -/
theorem componentsOn_diff (h : G.Adj p a) : componentsOn G (S \ {p}) = componentsOn G S := by
  refine Set.Subset.antisymm (Set.image_mono Set.sdiff_subset) ?_
  rintro _ ⟨u, hu, rfl⟩
  by_cases hup : u = p
  · subst hup
    exact ⟨a, ⟨hS a u h.symm, h.ne'⟩, ConnectedComponent.sound h.symm.reachable⟩
  · exact ⟨u, ⟨hu, hup⟩, rfl⟩

/-- There are more components without `p` just if `p` is a separator. -/
theorem ncard_componentsOn_lt_iff (hfin : S.Finite) :
    (componentsOn G S).ncard < (componentsOn (G.deleteIncidenceSet p) (S \ {p})).ncard ↔
      Separator G p := by
  have hparts : (componentsOn (G.deleteIncidenceSet p) (S \ {p})).Finite :=
    (hfin.subset Set.sdiff_subset).image _
  rw [← not_iff_not, not_lt]
  constructor
  · intro hle hsep
    obtain ⟨a, ha⟩ := hsep.exists_adj
    rw [← componentsOn_diff hS ha, ← image_wholeComponent G _ p] at hle
    have heq := le_antisymm (Set.ncard_image_le hparts) hle
    exact (injOn_wholeComponent hS).1 (Set.injOn_of_ncard_image_eq heq hparts) hsep
  · intro hsep
    calc
      _ = (componentsOn G (S \ {p})).ncard := by
        rw [← image_wholeComponent G _ p]
        exact ((injOn_wholeComponent hS).2 hsep).ncard_image.symm
      _ ≤ (componentsOn G S).ncard :=
        Set.ncard_le_ncard (Set.image_mono Set.sdiff_subset) (hfin.image _)

end Removal

end CouplingMap
