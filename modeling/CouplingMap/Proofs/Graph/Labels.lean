import CouplingMap.Graph.Components
import CouplingMap.Proofs.Graph.BreadthFirst

/-!
# Component labels find separated members

Labels are the same just for vertices in one component, also when a vertex is taken out. A member is
compared with the first member of its component only: if two members get different labels, one of
them gets another label than the first one.

* `Together`: two vertices are joined, without the vertex that is taken out, if there is one.
* `Labelled`: what holds of the labels while components are labelled one after another.
* `labels_eq_iff`: the meaning of equal labels.
* `SeparatorOf`: two other members are joined, but only by walks that visit a vertex.
  `mem_cutMembers`: the members that are found are these.
-/

namespace CouplingMap

open SimpleGraph

section Together

variable {V : Type} {G : SimpleGraph V} {removed : Option V} {S : Set V} {p u v w : V}

/-- A walk joins two vertices and does not visit the vertex that is taken out. -/
def Together (G : SimpleGraph V) : Option V → V → V → Prop
  | none, u, w => G.Reachable u w
  | some p, u, w => Evading G p u w

namespace Together

theorem refl (h : some u ≠ removed) : Together G removed u u := by
  cases removed with
  | none => exact .refl u
  | some p => exact .refl fun e => h (congrArg some e)

theorem symm (h : Together G removed u w) : Together G removed w u := by
  cases removed with
  | none => exact Reachable.symm h
  | some p => exact Evading.symm h

theorem trans (h : Together G removed u v) (h' : Together G removed v w) :
    Together G removed u w := by
  cases removed with
  | none => exact Reachable.trans h h'
  | some p => exact Evading.trans h h'

/-- An edge between vertices that are not taken out joins them. -/
theorem of_adj (h : G.Adj u w) (hu : some u ≠ removed) (hw : some w ≠ removed) :
    Together G removed u w := by
  cases removed with
  | none => exact h.reachable
  | some p =>
    exact Evading.of_adj h (fun e => hu (congrArg some e)) fun e => hw (congrArg some e)

theorem ne_removed (h : Together G removed u w) : some w ≠ removed := by
  cases removed with
  | none => exact Option.some_ne_none w
  | some p =>
    obtain ⟨q, hq⟩ := h
    rintro ⟨⟩
    exact hq q.end_mem_support

/-- A walk that joins two vertices is one on which no vertex is the one taken out. -/
theorem iff_exists_walk : Together G removed u w ↔
    ∃ q : G.Walk u w, ∀ x ∈ q.support, some x ≠ removed := by
  cases removed with
  | none =>
    exact ⟨fun ⟨q⟩ => ⟨q, fun x _ => Option.some_ne_none x⟩, fun ⟨q, _⟩ => ⟨q⟩⟩
  | some p =>
    refine exists_congr fun q => ⟨?_, fun h hp => h p hp rfl⟩
    rintro hp x hx ⟨⟩
    exact hp hx

end Together

/-- Two other members are joined, but only by walks that visit `p`. -/
def SeparatorOf (G : SimpleGraph V) (S : Set V) (p : V) : Prop :=
  ∃ u ∈ S, ∃ w ∈ S, u ≠ p ∧ w ≠ p ∧ G.Reachable u w ∧ ¬ Evading G p u w

theorem separatorOf_univ : SeparatorOf G Set.univ p ↔ Separator G p := by
  simp [SeparatorOf, Separator]

/-- A vertex separates two others of a set just if it lies on all walks between them. -/
theorem separatorOf_iff_mem_support : SeparatorOf G S p ↔
    ∃ u ∈ S, ∃ w ∈ S, u ≠ p ∧ w ≠ p ∧ u ≠ w ∧ G.Reachable u w ∧
      ∀ q : G.Walk u w, p ∈ q.support := by
  constructor
  · rintro ⟨u, hu, w, hw, hup, hwp, hr, hp⟩
    have hne : u ≠ w := fun e => hp (e ▸ .refl hup)
    exact ⟨u, hu, w, hw, hup, hwp, hne, hr, fun q => by_contra fun hq => hp ⟨q, hq⟩⟩
  · rintro ⟨u, hu, w, hw, hup, hwp, -, hr, hall⟩
    refine ⟨u, hu, w, hw, hup, hwp, hr, ?_⟩
    rintro ⟨q, hq⟩
    exact hq (hall q)

/-- Members that have numbers are separated just if their numbers are. -/
theorem separatorOf_comap {W : Type} {G : SimpleGraph W} {f : V → W} (hf : f.Injective)
    (hrange : ∀ a b, G.Adj a b → a ∈ Set.range f) :
    SeparatorOf (G.comap f) S p ↔ SeparatorOf G (f '' S) (f p) := by
  simp only [SeparatorOf, Set.exists_mem_image, hf.ne_iff, reachable_comap hf hrange,
    evading_comap hf hrange]

end Together

namespace Graph

variable {n : Nat} {adj : Adjacency n} {G : SimpleGraph (Fin n)} {removed : Option (Fin n)}
  {done members : List (Fin n)} {l : Ledger (Option (Fin n)) n} {r u v w : Fin n}

theorem mem_without : w ∈ without adj removed u ↔ w ∈ adj u ∧ some w ≠ removed := by
  simp [without]

section Labels

variable (hG : ∀ u w, w ∈ adj u ↔ G.Adj u w)

include hG

/-- From a vertex that is not taken out hops lead to the vertices together with it. -/
theorem exists_leads_iff (hu : some u ≠ removed) :
    (∃ k, Leads (without adj removed) u k w) ↔ Together G removed u w := by
  constructor
  · rintro ⟨k, h⟩
    induction h with
    | start => exact .refl hu
    | hop _ hadj ih =>
      obtain ⟨hadj, hw⟩ := mem_without.1 hadj
      exact ih.trans (.of_adj ((hG _ _).1 hadj) ih.ne_removed hw)
  · intro h
    obtain ⟨q, hq⟩ := Together.iff_exists_walk.1 h
    clear h
    induction q using Walk.concatRec with
    | Hnil => exact ⟨0, .start⟩
    | Hconcat q hadj ih =>
      simp only [Walk.support_concat, List.mem_append, List.mem_singleton] at hq
      obtain ⟨k, hk⟩ := ih hu fun x hx => hq x (Or.inl hx)
      exact ⟨k + 1, hk.hop (mem_without.2 ⟨(hG _ _).2 hadj, hq _ (Or.inr rfl)⟩)⟩

omit hG in
/-- What holds when the components of some vertices have been labelled. -/
structure Labelled (G : SimpleGraph (Fin n)) (removed : Option (Fin n)) (done : List (Fin n))
    (l : Ledger (Option (Fin n)) n) : Prop where
  joined : ∀ {r w : Fin n}, l[w] = some r → Together G removed r w
  total : ∀ v ∈ done, some v ≠ removed → l[v] ≠ none
  uniform : ∀ {u w : Fin n}, Together G removed u w → l[u] = l[w]

omit hG in
theorem Labelled.nil (G : SimpleGraph (Fin n)) (removed : Option (Fin n)) :
    Labelled G removed [] (Ledger.replicate n none) :=
  ⟨by simp, by simp, by simp⟩

/-- One more component is labelled. -/
theorem Labelled.labelFrom (h : Labelled G removed done l) (v : Fin n) :
    Labelled G removed (v :: done) (labelFrom adj removed l v) := by
  unfold Graph.labelFrom
  split
  · rename_i hskip
    refine ⟨h.joined, fun x hx hne => ?_, h.uniform⟩
    rcases List.mem_cons.1 hx with rfl | hx
    · exact Option.isSome_iff_ne_none.1 (hskip.resolve_right hne)
    · exact h.total x hx hne
  · rename_i hnew
    rw [not_or] at hnew
    have hget (x : Fin n) : (Ledger.ofFn fun w : Fin n =>
        if (search (without adj removed) v)[w].isSome then some v else l[w])[x] =
          if (search (without adj removed) v)[x].isSome then some v else l[x] :=
      Ledger.getElem_ofFn ..
    have hmark (x : Fin n) :
        (search (without adj removed) v)[x].isSome = true ↔ Together G removed v x := by
      rw [isSome_search, exists_leads_iff hG hnew.2]
    refine ⟨fun {r x} hx => ?_, fun x hx hne => ?_, fun {x y} hxy => ?_⟩
    · rw [hget] at hx
      split at hx
      · rename_i hv
        exact Option.some.inj hx ▸ (hmark x).1 hv
      · exact h.joined hx
    · rw [hget]
      split
      · exact Option.some_ne_none v
      · rename_i hv
        rcases List.mem_cons.1 hx with rfl | hx
        · exact absurd ((hmark x).2 (.refl hne)) hv
        · exact h.total x hx hne
    · have hside : Together G removed v x ↔ Together G removed v y :=
        ⟨fun hx => hx.trans hxy, fun hy => hy.trans hxy.symm⟩
      rw [hget, hget, h.uniform hxy]
      exact if_congr ((hmark x).trans (hside.trans (hmark y).symm)) rfl rfl

theorem labelled_labels (removed : Option (Fin n)) :
    ∃ done, (∀ v : Fin n, v ∈ done) ∧ Labelled G removed done (labels adj removed) := by
  have hfold (vs done : List (Fin n)) (l : Ledger (Option (Fin n)) n)
      (h : Labelled G removed done l) :
      Labelled G removed (vs.reverse ++ done) (vs.foldl (labelFrom adj removed) l) := by
    induction vs generalizing done l with
    | nil => exact h
    | cons v vs ih =>
      rw [List.reverse_cons, List.append_assoc, List.singleton_append]
      exact ih (v :: done) _ (h.labelFrom hG v)
  exact ⟨_, fun v => by simp, hfold (List.finRange n) [] _ (.nil G removed)⟩

/-- Vertices have the same label just if they are together. -/
theorem labels_eq_iff (hu : some u ≠ removed) :
    (labels adj removed)[u] = (labels adj removed)[w] ↔ Together G removed u w := by
  obtain ⟨done, hdone, h⟩ := labelled_labels hG removed
  refine ⟨fun heq => ?_, h.uniform⟩
  obtain ⟨r, hr⟩ := Option.ne_none_iff_exists'.1 (h.total u (hdone u) hu)
  exact (h.joined hr).symm.trans (h.joined (heq ▸ hr))

/-! ## Members -/

/-- A member is found just if taking it out separates two others. -/
theorem separates_iff : separates adj (labels adj none) members v = true ↔
    SeparatorOf G {u | u ∈ members} v := by
  have hbefore (u w : Fin n) :
      (labels adj none)[u] = (labels adj none)[w] ↔ G.Reachable u w :=
    labels_eq_iff hG (Option.some_ne_none u)
  have hafter {u : Fin n} (hu : u ≠ v) (w : Fin n) :
      (labels adj (some v))[u] = (labels adj (some v))[w] ↔ Evading G v u w :=
    labels_eq_iff hG fun e => hu (Option.some.inj e)
  have hother {u : Fin n} : u ∈ members.filter (fun u => u ≠ v) ↔ u ∈ members ∧ u ≠ v := by simp
  simp only [separates, List.any_eq_true, hother]
  constructor
  · rintro ⟨w, ⟨hw, hwv⟩, h⟩
    split at h
    · rename_i u hfind
      have hsame := List.find?_some hfind
      obtain ⟨hu, huv⟩ := hother.1 (List.mem_of_find?_eq_some hfind)
      rw [decide_eq_true_iff] at hsame h
      exact ⟨u, hu, w, hw, huv, hwv, (hbefore u w).1 hsame, fun hev => h ((hafter huv w).2 hev)⟩
    · contradiction
  · rintro ⟨u, hu, w, hw, huv, hwv, hreach, hn⟩
    -- The first member of the component cannot be together with both of them.
    have hfirst : ∃ f, (members.filter fun u => u ≠ v).find? (fun f =>
        (labels adj none)[f] = (labels adj none)[u]) = some f := by
      rw [← Option.isSome_iff_exists, List.find?_isSome]
      exact ⟨u, hother.2 ⟨hu, huv⟩, by simp⟩
    obtain ⟨f, hf⟩ := hfirst
    have hsame : (labels adj none)[u] = (labels adj none)[w] := (hbefore u w).2 hreach
    by_cases hev : Evading G v f u
    · refine ⟨w, ⟨hw, hwv⟩, ?_⟩
      rw [← hsame, hf]
      have hfv := (hother.1 (List.mem_of_find?_eq_some hf)).2
      refine decide_eq_true fun heq => hn ?_
      exact hev.symm.trans ((hafter hfv w).1 heq)
    · refine ⟨u, ⟨hu, huv⟩, ?_⟩
      rw [hf]
      have hfv := (hother.1 (List.mem_of_find?_eq_some hf)).2
      exact decide_eq_true fun heq => hev ((hafter hfv u).1 heq)

/-- The members that are found are those that separate two others. -/
theorem mem_cutMembers :
    v ∈ cutMembers adj members ↔ v ∈ members ∧ SeparatorOf G {u | u ∈ members} v := by
  rw [cutMembers, List.mem_filter, separates_iff hG]

end Labels

end Graph

end CouplingMap
