import CouplingMap.Proofs.Graph.DepthFirst
import CouplingMap.Proofs.Graph.Walk

/-!
# Cut vertices are separators

The tree that a search leaves behind has no edges between different branches. A child whose subtree
leads nowhere above its parent can be left through the parent only; all other subtrees have a way
around it.

* `LowLink.Finished.under_or_under`: an edge joins a vertex to one above or below it.
* `LowLink.Finished.separator_of_showsCut`, `LowLink.Finished.not_separator`: the two directions.
* `mem_cutVertices`: the vertices found are the separators.
-/

namespace CouplingMap.Graph

open SimpleGraph

variable {n : Nat} {adj : Adjacency n} {G : SimpleGraph (Fin n)} {s : LowLink n}
  {a b r u v w x : Fin n}

namespace LowLink

/-- The number of a vertex after the search. -/
def time (s : LowLink n) (u : Fin n) : Nat := s.number[u].getD 0

namespace Finished

theorem number (hs : Finished adj s) (u : Fin n) : s.number[u] = some (s.time u) := by
  obtain ⟨k, hk⟩ := hs.met u
  rw [time, hk]
  rfl

theorem time_le (hs : Finished adj s) (h : s.Under u w) : s.time u ≤ s.time w :=
  hs.valid.le_of_under h (hs.number u) (hs.number w)

theorem time_lt_of_parent (hs : Finished adj s) (h : s.parent[w] = some v) :
    s.time v < s.time w := by
  obtain ⟨-, j, k, hj, hk, hlt⟩ := hs.valid.parent h
  have := Option.some.inj ((hs.number v).symm.trans hj)
  have := Option.some.inj ((hs.number w).symm.trans hk)
  omega

theorem eq_of_under (hs : Finished adj s) (h : s.Under u w) (h' : s.Under w u) : u = w := by
  have := Nat.le_antisymm (hs.time_le h) (hs.time_le h')
  exact hs.valid.injective (hs.number u) (this ▸ hs.number w)

theorem time_lt (hs : Finished adj s) (h : s.Under u w) (hne : u ≠ w) : s.time u < s.time w :=
  Nat.lt_of_le_of_ne (hs.time_le h) fun e =>
    hne (hs.valid.injective (hs.number u) (e ▸ hs.number w))

/-- A child does not have its parent below it. -/
theorem not_under_parent (hs : Finished adj s) (hw : s.parent[w] = some v) : ¬ s.Under w v :=
  fun h => Nat.not_lt.2 (hs.time_le h) (hs.time_lt_of_parent hw)

/-- Every vertex hangs below a root. -/
theorem exists_root (hs : Finished adj s) (u : Fin n) :
    ∃ r : Fin n, s.parent[r] = none ∧ s.Under r u := by
  induction h : s.time u using Nat.strong_induction_on generalizing u with
  | _ k ih =>
    cases hp : s.parent[u] with
    | none => exact ⟨u, hp, .refl s u⟩
    | some p =>
      obtain ⟨r, hr, hu⟩ := ih (s.time p) (h ▸ hs.time_lt_of_parent hp) p rfl
      exact ⟨r, hr, hu.trans (.of_parent hp)⟩

/-- Nothing is above a root. -/
theorem eq_root (hr : s.parent[r] = none) (h : s.Under u r) : u = r := by
  by_contra hne
  obtain ⟨p, hp, -⟩ := h.exists_parent (Ne.symm hne)
  rw [hr] at hp
  contradiction

/-- A vertex below `w` is below a root that is in line with `w`. -/
theorem under_of_root (hr : s.parent[r] = none) (h : s.Under r u) (h' : s.Under w u) :
    s.Under r w := by
  rcases h.total h' with h | h
  · exact h
  · exact eq_root hr h ▸ .refl s w

section Shape

variable (hs : Finished adj s) (hG : ∀ u w, w ∈ adj u ↔ G.Adj u w)

include hs hG

/-- An edge joins a vertex to one above or below it. -/
theorem under_or_under (h : G.Adj a b) : s.Under a b ∨ s.Under b a := by
  rcases Nat.lt_trichotomy (s.time a) (s.time b) with hlt | heq | hlt
  · exact Or.inl ((hs.settled a).down b ((hG a b).2 h) (hs.number a) (hs.number b) hlt)
  · exact absurd (hs.valid.injective (hs.number a) (heq ▸ hs.number b)) h.ne
  · exact Or.inr ((hs.settled b).down a ((hG b a).2 h.symm) (hs.number b) (hs.number a) hlt)

theorem adj_of_parent (h : s.parent[w] = some v) : G.Adj v w :=
  (hG v w).1 (hs.valid.parent h).1

/-- The way down the tree evades a vertex that is not on it. -/
theorem evading_of_under (h : s.Under u x) (hv : ¬ (s.Under u v ∧ s.Under v x)) :
    Evading G v u x := by
  induction h with
  | refl => exact .refl fun e => hv (e ▸ ⟨.refl s u, .refl s u⟩)
  | @tail p x hup hp ih =>
    have hpx : s.Under p x := .of_parent hp
    have hpv : p ≠ v := fun e => hv (e ▸ ⟨hup, hpx⟩)
    have hxv : x ≠ v := fun e => hv (e ▸ ⟨hup.trans hpx, .refl s x⟩)
    exact (ih fun h => hv ⟨h.1, h.2.trans hpx⟩).trans (.of_adj (hs.adj_of_parent hG hp) hpv hxv)

/-- Joined vertices are below the same root. -/
theorem under_root_iff (hr : s.parent[r] = none) (h : G.Reachable u w) :
    s.Under r u ↔ s.Under r w := by
  refine iff_of_reachable (P := fun x => s.Under r x) (fun a b hab ha => ?_) h
  rcases hs.under_or_under hG hab with h | h
  · exact ha.trans h
  · exact under_of_root hr ha h

/-! ## Subtrees that lead nowhere -/

/-- An edge from the subtree of a child of `v` stays there, leads to `v`, or leads to a vertex above
`v` that is not the parent of its end in the subtree. -/
theorem under_or_above (hw : s.parent[w] = some v) (ha : s.Under w a) (hab : G.Adj a b) :
    s.Under w b ∨ b = v ∨ s.Under b v ∧ b ≠ v ∧ s.parent[a] ≠ some b := by
  rcases hs.under_or_under hG hab with h | h
  · exact Or.inl (ha.trans h)
  by_cases hwb : s.Under w b
  · exact Or.inl hwb
  by_cases hbv : b = v
  · exact Or.inr (Or.inl hbv)
  have hbw : s.Under b w := (h.total ha).resolve_right hwb
  obtain ⟨p, hp, hbp⟩ := hbw.exists_parent fun e => hwb (e ▸ .refl s w)
  obtain rfl := Option.some.inj (hp.symm.trans hw)
  refine Or.inr (Or.inr ⟨hbp, hbv, fun hpa => ?_⟩)
  by_cases haw : a = w
  · exact hbv (Option.some.inj (hpa.symm.trans (haw ▸ hw)))
  · obtain ⟨q, hq, hwq⟩ := ha.exists_parent haw
    exact hwb (Option.some.inj (hpa.symm.trans hq) ▸ hwq)

/-- The subtree of a child of a root leads to the root only. -/
theorem closed_of_root (hv : s.parent[v] = none) (hw : s.parent[w] = some v) (ha : s.Under w a)
    (hab : G.Adj a b) : s.Under w b ∨ b = v := by
  rcases hs.under_or_above hG hw ha hab with h | h | ⟨h, hne, -⟩
  · exact Or.inl h
  · exact Or.inr h
  · exact absurd (eq_root hv h) hne

/-- The subtree of a child with a low that is not below `v` leads to `v` only. -/
theorem closed_of_le (hw : s.parent[w] = some v) (hle : s.time v ≤ s.low[w]) (ha : s.Under w a)
    (hab : G.Adj a b) : s.Under w b ∨ b = v := by
  rcases hs.under_or_above hG hw ha hab with h | h | ⟨h, hne, hp⟩
  · exact Or.inl h
  · exact Or.inr h
  · have hadj := (hG a b).2 hab
    have hsees : LowLink.Sees adj s w (adj w) (s.time b) :=
      Or.inr ⟨a, b, ha, hadj, fun e => e ▸ hadj, hp, hs.number b⟩
    have := (hs.settled w).low.2 hsees
    have := hs.time_lt h hne
    omega

/-- From the subtree of a child with a low below `v` an edge leads above `v`. -/
theorem exists_detour (hw : s.parent[w] = some v) (hlt : s.low[w] < s.time v) :
    ∃ a b, s.Under w a ∧ G.Adj a b ∧ s.Under b v ∧ b ≠ v := by
  have hvw := hs.time_lt_of_parent hw
  rcases (hs.settled w).low.1 with h | ⟨a, b, ha, hab, -, -, hb⟩
  · have := Option.some.inj ((hs.number w).symm.trans h)
    omega
  · have htime := Option.some.inj ((hs.number b).symm.trans hb)
    refine ⟨a, b, ha, (hG a b).1 hab, ?_⟩
    rcases hs.under_or_above hG hw ha ((hG a b).1 hab) with h | rfl | ⟨h, hne, -⟩
    · have := hs.time_le h
      omega
    · omega
    · exact ⟨h, hne⟩

/-! ## The two directions -/

theorem separator_of_closed (hw : s.parent[w] = some v)
    (hclosed : ∀ a, s.Under w a → ∀ b, G.Adj a b → s.Under w b ∨ b = v) (hx : x ≠ v)
    (hwx : ¬ s.Under w x) (hreach : G.Reachable v x) : Separator G v := by
  have hadj := hs.adj_of_parent hG hw
  refine ⟨w, x, hadj.ne', hx, hadj.symm.reachable.trans hreach, fun h => hwx ?_⟩
  exact h.mem_of_closed (S := {a | s.Under w a}) hclosed (.refl s w)

/-- What the records show to be a cut vertex is a separator. -/
theorem separator_of_showsCut (h : s.ShowsCut v) : Separator G v := by
  rcases h with ⟨hv, hcard⟩ | ⟨hv, w, hw, j, hj, hle⟩
  · obtain ⟨w, hw, x, hx, hne⟩ := Finset.one_lt_card.1 hcard
    rw [LowLink.mem_kids] at hw hx
    have hadj := hs.adj_of_parent hG hx
    refine hs.separator_of_closed hG hw (fun a ha b => hs.closed_of_root hG hv hw ha) hadj.ne'
      (fun hwx => ?_) hadj.reachable
    obtain ⟨p, hp, hwp⟩ := hwx.exists_parent hne.symm
    obtain rfl := Option.some.inj (hp.symm.trans hx)
    exact (hs.adj_of_parent hG hw).ne' (eq_root hv hwp)
  · obtain ⟨p, hp⟩ := Option.ne_none_iff_exists'.1 hv
    have hadj := hs.adj_of_parent hG hp
    obtain rfl := Option.some.inj ((hs.number v).symm.trans hj)
    refine hs.separator_of_closed hG hw (fun a ha b => hs.closed_of_le hG hw hle ha) hadj.ne
      (fun hwp => ?_) hadj.symm.reachable
    have := hs.time_le hwp
    have := hs.time_lt_of_parent hw
    have := hs.time_lt_of_parent hp
    omega

/-- All of a component is reached from its root without a vertex that cuts nothing off. -/
theorem evading_root (hcut : ¬ s.ShowsCut v) (hr : s.parent[r] = none) (hrv : r ≠ v)
    (hx : x ≠ v) (hrx : s.Under r x) : Evading G v r x := by
  by_cases hvx : s.Under v x
  · have hv : s.parent[v] ≠ none := fun hv =>
      hrv (eq_root hv (under_of_root hr hrx hvx))
    obtain ⟨w, hw, hwx⟩ := hvx.exists_child hx
    have hlt : s.low[w] < s.time v := Nat.lt_of_not_le fun hle =>
      hcut (Or.inr ⟨hv, w, hw, s.time v, hs.number v, hle⟩)
    obtain ⟨a, b, hwa, hab, hbv, hne⟩ := hs.exists_detour hG hw hlt
    have hwv := hs.not_under_parent hw
    have hrb : s.Under r b := under_of_root hr hrx (hbv.trans hvx)
    have hav : a ≠ v := fun e => hwv (e ▸ hwa)
    calc
      Evading G v r b := hs.evading_of_under hG hrb fun h => hne (hs.eq_of_under hbv h.2)
      Evading G v b a := .of_adj hab.symm hne hav
      Evading G v a w := (hs.evading_of_under hG hwa fun h => hwv h.1).symm
      Evading G v w x := hs.evading_of_under hG hwx fun h => hwv h.1
  · exact hs.evading_of_under hG hrx fun h => hvx h.2

/-- The vertices below a root with one child are joined below it. -/
theorem evading_of_root (hv : s.parent[v] = none) (hcut : ¬ s.ShowsCut v) (hu : u ≠ v)
    (hx : x ≠ v) (hvu : s.Under v u) (hvx : s.Under v x) : Evading G v u x := by
  obtain ⟨w, hw, hwu⟩ := hvu.exists_child hu
  obtain ⟨y, hy, hyx⟩ := hvx.exists_child hx
  have hcard : (s.kids v).card ≤ 1 := Nat.le_of_not_lt fun h => hcut (Or.inl ⟨hv, h⟩)
  obtain rfl := Finset.card_le_one.1 hcard w (LowLink.mem_kids.2 hw) y (LowLink.mem_kids.2 hy)
  have hwv := hs.not_under_parent hw
  exact (hs.evading_of_under hG hwu fun h => hwv h.1).symm.trans
    (hs.evading_of_under hG hyx fun h => hwv h.1)

/-- What the records do not show to be a cut vertex is no separator. -/
theorem not_separator (hcut : ¬ s.ShowsCut v) : ¬ Separator G v := by
  refine not_separator_iff.2 fun u x hu hx hreach => ?_
  obtain ⟨r, hr, hru⟩ := hs.exists_root u
  have hrx := (hs.under_root_iff hG hr hreach).1 hru
  by_cases hrv : r = v
  · subst hrv
    exact hs.evading_of_root hG hr hcut hu hx hru hrx
  · exact (hs.evading_root hG hcut hr hrv hu hru).symm.trans (hs.evading_root hG hcut hr hrv hx hrx)

end Shape

end Finished

end LowLink

/-- The cut vertices that the search finds are the separators. -/
theorem mem_cutVertices (hG : ∀ u w, w ∈ adj u ↔ G.Adj u w) :
    v ∈ cutVertices adj ↔ Separator G v := by
  have hs := LowLink.finished_run adj
  simp only [cutVertices, List.mem_filter, List.mem_finRange, true_and]
  rw [(hs.settled v).cut]
  exact ⟨hs.separator_of_showsCut hG, fun h => by_contra fun hcut => hs.not_separator hG hcut h⟩

end CouplingMap.Graph
