import CouplingMap.Proofs.Graph.Record
import Mathlib.Order.Bounds.Basic

/-!
# What exploring a vertex records

A vertex is settled when the search backs out of it, and it stays so.

* `LowLink.Extends`: what stays while a vertex is explored, and where the new vertices hang.
* `LowLink.Settled`: the neighbours of a vertex have numbers, those with greater numbers hang below
  it, its low is the least number seen from its subtree, and its mark is right. `Settled.extend`:
  this does not change while other vertices are explored.
* `LowLink.explore`: the search as a recursion. `LowLink.trying_explore`: it settles the vertices
  that it meets.
-/

namespace CouplingMap.Graph.LowLink

variable {n : Nat} {adj : Adjacency n} {root : Fin n} {s t r : LowLink n} {u v w : Fin n}
  {j k : Nat} {above : Option (Fin n)} {tried : List (Fin n)}

/-! ## Later records -/

/-- `t` comes after `s` while `above` is explored: what was recorded stays, but for the low and the
mark of `above`, and the vertices met since hang under `above` or under each other. -/
structure Extends (above : Option (Fin n)) (s t : LowLink n) : Prop where
  next_le : s.next ≤ t.next
  number : ∀ {u : Fin n} {k : Nat}, s.number[u] = some k → t.number[u] = some k
  parent : ∀ {u : Fin n} {k : Nat}, s.number[u] = some k → t.parent[u] = s.parent[u]
  low : ∀ {u : Fin n} {k : Nat}, s.number[u] = some k → above ≠ some u → t.low[u] = s.low[u]
  cut : ∀ {u : Fin n} {k : Nat}, s.number[u] = some k → above ≠ some u → t.cut[u] = s.cut[u]
  fresh : ∀ {u : Fin n} {k : Nat}, s.number[u] = none → t.number[u] = some k →
    s.next ≤ k ∧ (t.parent[u] = above ∨ ∃ p : Fin n, t.parent[u] = some p ∧ s.number[p] = none)

namespace Extends

theorem refl (above : Option (Fin n)) (s : LowLink n) : Extends above s s where
  next_le := Nat.le_refl _
  number h := h
  parent _ := rfl
  low _ _ := rfl
  cut _ _ := rfl
  fresh h h' := by simp [h] at h'

/-- A change at the explored vertex or at a new one is part of exploring. -/
theorem touches_of (h : Extends above s t) (ht : Touches v t r)
    (hv : ∀ k, s.number[v] = some k → above = some v) : Extends above s r where
  next_le := ht.next ▸ h.next_le
  number hu := (ht.number _).trans (h.number hu)
  parent hu := (ht.parent _).trans (h.parent hu)
  low hu hne := by
    refine (ht.low _ ?_).trans (h.low hu hne)
    rintro rfl
    exact hne (hv _ hu)
  cut hu hne := by
    refine (ht.cut _ ?_).trans (h.cut hu hne)
    rintro rfl
    exact hne (hv _ hu)
  fresh hu hk := by
    rw [ht.number] at hk
    rw [ht.parent]
    exact h.fresh hu hk

theorem touches (h : Extends (some v) s t) (ht : Touches v t r) : Extends (some v) s r :=
  h.touches_of ht fun _ _ => rfl

theorem trans (h : Extends above s t) (h' : Extends above t r) : Extends above s r where
  next_le := h.next_le.trans h'.next_le
  number hu := h'.number (h.number hu)
  parent hu := (h'.parent (h.number hu)).trans (h.parent hu)
  low hu hv := (h'.low (h.number hu) hv).trans (h.low hu hv)
  cut hu hv := (h'.cut (h.number hu) hv).trans (h.cut hu hv)
  fresh {u k} hu hk := by
    cases hi : t.number[u] with
    | some i =>
      obtain rfl := Option.some.inj ((h'.number hi).symm.trans hk)
      rw [h'.parent hi]
      exact h.fresh hu hi
    | none =>
      obtain ⟨hle, hp⟩ := h'.fresh hi hk
      refine ⟨h.next_le.trans hle, hp.imp_right ?_⟩
      rintro ⟨p, hp, hnone⟩
      refine ⟨p, hp, Option.eq_none_iff_forall_ne_some.2 fun i hi => ?_⟩
      simp [h.number hi] at hnone

/-- Exploring a vertex right after it was met is part of exploring what it was met from. -/
theorem of_meets (hm : Meets above w s t) (h : Extends (some w) t r) : Extends above s r := by
  have hne : ∀ {u : Fin n} {k : Nat}, s.number[u] = some k → w ≠ u := by
    rintro u k hu rfl
    simp [hm.new] at hu
  have hnum : ∀ {u : Fin n} {k : Nat}, s.number[u] = some k → t.number[u] = some k := by
    intro u k hu
    rw [hm.number, if_neg (hne hu), hu]
  refine ⟨?_, fun hu => h.number (hnum hu), ?_, ?_, ?_, ?_⟩
  · have := hm.next ▸ h.next_le
    omega
  · intro u k hu
    rw [h.parent (hnum hu), hm.parent, if_neg (hne hu)]
  · intro u k hu _
    rw [h.low (hnum hu) (by simpa using hne hu), hm.low, if_neg (hne hu)]
  · intro u k hu _
    rw [h.cut (hnum hu) (by simpa using hne hu), hm.cut]
  · intro u k hu hk
    by_cases hwu : w = u
    · subst hwu
      have hw : t.number[w] = some s.next := by rw [hm.number, if_pos rfl]
      obtain rfl := Option.some.inj ((h.number hw).symm.trans hk)
      rw [h.parent hw, hm.parent, if_pos rfl]
      exact ⟨Nat.le_refl _, Or.inl rfl⟩
    · obtain ⟨hle, hp⟩ := h.fresh (by rw [hm.number, if_neg hwu, hu]) hk
      rw [hm.next] at hle
      refine ⟨by omega, Or.inr ?_⟩
      rcases hp with hp | ⟨p, hp, hnone⟩
      · exact ⟨w, hp, hm.new⟩
      · rw [hm.number] at hnone
        split at hnone
        · contradiction
        · exact ⟨p, hp, hnone⟩

/-- The tree only grows. -/
theorem under (hs : Valid adj s) (h : Extends above s t) (hu : s.Under v u) : t.Under v u := by
  induction hu with
  | refl => exact .refl t v
  | tail _ hp ih =>
    obtain ⟨-, -, k, -, hk, -⟩ := hs.parent hp
    exact ih.trans (.of_parent ((h.parent hk).trans hp))

/-- The vertices above one that was met before were above it before. -/
theorem under_of_met (hs : Valid adj s) (h : Extends above s t) (hu : t.Under v u)
    (hm : s.number[u] = some k) : s.Under v u := by
  induction hu generalizing k with
  | refl => exact .refl s v
  | tail _ hp ih =>
    rw [h.parent hm] at hp
    obtain ⟨-, j, -, hj, -, -⟩ := hs.parent hp
    exact (ih hj).trans (.of_parent hp)

/-- Nothing new hangs below a vertex that was met before, unless it is above the vertex that is
explored. -/
theorem met_of_under (hs : Valid adj s) (h : Extends above s t) (hm : s.number[v] = some j)
    (hv : ∀ p, above = some p → ¬ s.Under v p) (hu : t.Under v u)
    (hk : t.number[u] = some k) (ht : Valid adj t) : ∃ i, s.number[u] = some i := by
  induction hu generalizing k with
  | refl => exact ⟨j, hm⟩
  | @tail p u hvp hp ih =>
    obtain ⟨-, l, -, hl, -, -⟩ := ht.parent hp
    obtain ⟨i, hi⟩ := ih hl
    cases hu : s.number[u] with
    | some i => exact ⟨i, rfl⟩
    | none =>
      rcases (h.fresh hu hk).2 with ha | ⟨q, hq, hnone⟩
      · exact absurd (h.under_of_met hs hvp hi) (hv p (ha.symm.trans hp))
      · obtain rfl := Option.some.inj (hp.symm.trans hq)
        simp [hi] at hnone

end Extends

/-! ## Settled vertices -/

/-- `k` is the number of `v`, or of a neighbour of a vertex in the subtree of `v` that is not its
parent. Of the neighbours of `v` itself only those that were tried count. -/
def Sees (adj : Adjacency n) (s : LowLink n) (v : Fin n) (tried : List (Fin n)) (k : Nat) : Prop :=
  s.number[v] = some k ∨
    ∃ a b : Fin n, s.Under v a ∧ b ∈ adj a ∧ (a = v → b ∈ tried) ∧ s.parent[a] ≠ some b ∧
      s.number[b] = some k

/-- Nothing in the subtree of some child of `v` leads above `v`. -/
def CutsOff (s : LowLink n) (v : Fin n) : Prop :=
  ∃ w : Fin n, s.parent[w] = some v ∧ ∃ j, s.number[v] = some j ∧ j ≤ s.low[w]

/-- The records show that `v` is a cut vertex. -/
def ShowsCut (s : LowLink n) (v : Fin n) : Prop :=
  s.parent[v] = none ∧ 1 < (s.kids v).card ∨ s.parent[v] ≠ none ∧ s.CutsOff v

/-- What holds of a vertex from the time on when the search backs out of it. -/
structure Settled (adj : Adjacency n) (s : LowLink n) (u : Fin n) : Prop where
  met : ∀ b ∈ adj u, ∃ k, s.number[b] = some k
  down : ∀ b ∈ adj u, ∀ {j k : Nat}, s.number[u] = some j → s.number[b] = some k → j < k →
    s.Under u b
  low : IsLeast {k | Sees adj s u (adj u) k} s.low[u]
  cut : s.cut[u] = true ↔ s.ShowsCut u

theorem Sees.mono {tried' : List (Fin n)} (h : Sees adj s v tried k)
    (hsub : ∀ b ∈ tried, b ∈ tried') : Sees adj s v tried' k := by
  rcases h with hk | ⟨a, b, hva, hab, htried, hp, hb⟩
  · exact Or.inl hk
  · exact Or.inr ⟨a, b, hva, hab, fun h => hsub b (htried h), hp, hb⟩

namespace Extends

theorem number_eq (h : Extends above s t) (hm : s.number[u] = some j) :
    t.number[u] = s.number[u] := (h.number hm).trans hm.symm

/-- What was seen stays seen. -/
theorem sees (hs : Valid adj s) (h : Extends above s t) (hm : s.number[v] = some j)
    (hk : Sees adj s v tried k) : Sees adj t v tried k := by
  rcases hk with hk | ⟨a, b, hva, hab, htried, hp, hb⟩
  · exact Or.inl (h.number hk)
  · obtain ⟨i, hi⟩ := hs.met_of_under hva hm
    exact Or.inr ⟨a, b, h.under hs hva, hab, htried, h.parent hi ▸ hp, h.number hb⟩

section Stable

variable (hs : Valid adj s) (ht : Valid adj t) (h : Extends above s t) (hm : s.number[v] = some j)
  (hv : ∀ p, above = some p → ¬ s.Under v p)

include hs ht h hm hv

/-- The subtree of a vertex that is not above the explored one does not change. -/
theorem under_iff : t.Under v u ↔ s.Under v u := by
  constructor
  · intro hu
    obtain ⟨k, hk⟩ := ht.met_of_under hu (h.number hm)
    obtain ⟨i, hi⟩ := h.met_of_under hs hm hv hu hk ht
    exact h.under_of_met hs hu hi
  · exact h.under hs

theorem parent_iff : t.parent[w] = some v ↔ s.parent[w] = some v := by
  constructor
  · intro hw
    have hu : s.Under v w := (h.under_iff hs ht hm hv).1 (.of_parent hw)
    obtain ⟨i, hi⟩ := hs.met_of_under hu hm
    rwa [h.parent hi] at hw
  · intro hw
    obtain ⟨-, -, k, -, hk, -⟩ := hs.parent hw
    rwa [h.parent hk]

theorem kids_eq : t.kids v = s.kids v := by
  ext w
  rw [mem_kids, mem_kids, h.parent_iff hs ht hm hv]

omit ht in
/-- A low below such a vertex does not change. -/
theorem low_of_under (hu : s.Under v u) : t.low[u] = s.low[u] := by
  obtain ⟨k, hk⟩ := hs.met_of_under hu hm
  exact h.low hk fun e => hv u e hu

theorem cutsOff_iff : t.CutsOff v ↔ s.CutsOff v := by
  refine exists_congr fun w => ?_
  rw [h.parent_iff hs ht hm hv, h.number_eq hm]
  refine and_congr_right fun hw => ?_
  rw [h.low_of_under hs hm hv (.of_parent hw)]

theorem showsCut_iff : t.ShowsCut v ↔ s.ShowsCut v := by
  rw [ShowsCut, ShowsCut, h.parent hm, h.kids_eq hs ht hm hv, h.cutsOff_iff hs ht hm hv]

/-- A vertex whose subtree is settled stays settled. -/
theorem settled (hsub : ∀ a, s.Under v a → Settled adj s a) : Settled adj t v where
  met b hb := by
    obtain ⟨k, hk⟩ := (hsub v (.refl s v)).met b hb
    exact ⟨k, h.number hk⟩
  down b hb i k hi hk hlt := by
    obtain ⟨l, hl⟩ := (hsub v (.refl s v)).met b hb
    rw [h.number_eq hm] at hi
    rw [h.number_eq hl] at hk
    exact h.under hs ((hsub v (.refl s v)).down b hb hi hk hlt)
  low := by
    rw [h.low_of_under hs hm hv (.refl s v)]
    have hset := (hsub v (.refl s v)).low
    refine ⟨h.sees hs hm hset.1, fun k hk => hset.2 ?_⟩
    rcases hk with hk | ⟨a, b, hva, hab, htried, hp, hb⟩
    · exact Or.inl (h.number_eq hm ▸ hk)
    · have hva' := (h.under_iff hs ht hm hv).1 hva
      obtain ⟨i, hi⟩ := hs.met_of_under hva' hm
      obtain ⟨l, hl⟩ := (hsub a hva').met b hab
      exact Or.inr ⟨a, b, hva', hab, htried, h.parent hi ▸ hp, h.number_eq hl ▸ hb⟩
  cut := by
    rw [h.cut hm fun e => hv v e (.refl s v), (hsub v (.refl s v)).cut,
      h.showsCut_iff hs ht hm hv]

end Stable

end Extends

/-! ## One edge after another -/

/-- `v` was just met. -/
structure Entered (root : Fin n) (s : LowLink n) (v : Fin n) (j : Nat) : Prop where
  number : s.number[v] = some j
  next : s.next = j + 1
  low : s.low[v] = j
  cut : s.cut[v] = false
  parent : s.parent[v] = none ↔ v = root
  root_met : ∃ k, s.number[root] = some k
  branches : v = root → s.branches = 0

/-- The records are `t` when some neighbours of `v` were tried, which was met in `s`. -/
structure Trying (adj : Adjacency n) (root v : Fin n) (s : LowLink n) (tried : List (Fin n))
    (t : LowLink n) : Prop where
  valid : Valid adj t
  later : Extends (some v) s t
  settled : ∀ {u : Fin n} {k : Nat}, s.number[u] = none → t.number[u] = some k →
    t.Under v u ∧ Settled adj t u
  met : ∀ b ∈ tried, ∃ k, t.number[b] = some k
  low : IsLeast {k | Sees adj t v tried k} t.low[v]
  cut : t.cut[v] = true ↔ v ≠ root ∧ t.CutsOff v
  branches : t.branches = if v = root then (t.kids v).card else s.branches

/-- A vertex that was just met has no children. -/
theorem Entered.parent_ne (he : Entered root s v j) (hs : Valid adj s) (w : Fin n) :
    s.parent[w] ≠ some v := by
  intro hw
  obtain ⟨-, i, k, hi, hk, hlt⟩ := hs.parent hw
  have := Option.some.inj (he.number.symm.trans hi)
  have := hs.lt_next hk
  have := he.next
  omega

theorem Entered.eq_of_under (he : Entered root s v j) (hs : Valid adj s) (h : s.Under v u) :
    u = v := by
  by_contra hne
  obtain ⟨w, hw, -⟩ := h.exists_child hne
  exact he.parent_ne hs w hw

namespace Touches

/-- A change at `v` is part of exploring `v`. -/
theorem later (h : Touches v s t) : Extends (some v) s t := (Extends.refl _ s).touches h

theorem under_iff (h : Touches v s t) : t.Under u w ↔ s.Under u w := by
  have : (fun v u : Fin n => t.parent[u] = some v) = fun v u : Fin n => s.parent[u] = some v := by
    funext v u
    rw [h.parent]
  rw [Under, Under, this]

theorem sees_iff (h : Touches v s t) : Sees adj t u tried k ↔ Sees adj s u tried k := by
  simp only [Sees, h.number, h.parent, h.under_iff]

theorem kids_eq (h : Touches v s t) (u : Fin n) : t.kids u = s.kids u := by
  ext w
  rw [mem_kids, mem_kids, h.parent]

theorem cutsOff_iff (hs : Valid adj s) (h : Touches v s t) : t.CutsOff v ↔ s.CutsOff v := by
  refine exists_congr fun w => ?_
  rw [h.parent, h.number]
  refine and_congr_right fun hw => ?_
  rw [h.low w]
  rintro rfl
  obtain ⟨-, i, k, hi, hk, hlt⟩ := hs.parent hw
  have := Option.some.inj (hi.symm.trans hk)
  omega

end Touches

namespace Trying

/-- A vertex that was met after `v` has a greater number. -/
theorem lt_number (ht : Trying adj root v s tried t) (he : Entered root s v j)
    (hu : s.number[u] = none) (hk : t.number[u] = some k) : j < k := by
  have := (ht.later.fresh hu hk).1
  have := he.next
  omega

theorem not_under (ht : Trying adj root v s tried t) (he : Entered root s v j)
    (hu : s.number[u] = none) (hk : t.number[u] = some k) : ¬ t.Under u v := fun h => by
  have := ht.valid.le_of_under h hk (ht.later.number he.number)
  have := ht.lt_number he hu hk
  omega

/-- What hangs below a vertex that was met after `v` was met after `v`. -/
theorem fresh_of_under (hs : Valid adj s) (ht : Trying adj root v s tried t)
    (hu : s.number[u] = none) (hk : t.number[u] = some k) (ha : t.Under u w) :
    s.number[w] = none := by
  refine Option.eq_none_iff_forall_ne_some.2 fun i hi => ?_
  have := ht.valid.le_of_under ha hk (ht.later.number hi)
  have := (ht.later.fresh hu hk).1
  have := hs.lt_next hi
  omega

theorem settled_of_under (hs : Valid adj s) (ht : Trying adj root v s tried t)
    (hu : s.number[u] = none) (hk : t.number[u] = some k) (ha : t.Under u w) :
    Settled adj t w := by
  obtain ⟨i, hi⟩ := ht.valid.met_of_under ha hk
  exact (ht.settled (fresh_of_under hs ht hu hk ha) hi).2

/-- The vertices met since stay settled while `v` is explored on. -/
theorem settled_extend (hs : Valid adj s) (he : Entered root s v j)
    (ht : Trying adj root v s tried t) (h : Extends (some v) t r) (hr : Valid adj r)
    (hu : s.number[u] = none) (hk : t.number[u] = some k) : r.Under v u ∧ Settled adj r u := by
  refine ⟨h.under ht.valid (ht.settled hu hk).1, ?_⟩
  refine h.settled ht.valid hr hk ?_ fun a => settled_of_under hs ht hu hk
  rintro p hp
  obtain rfl := Option.some.inj hp
  exact ht.not_under he hu hk

/-- Nothing has been tried at first. -/
theorem entered (hs : Valid adj s) (he : Entered root s v j) : Trying adj root v s [] s where
  valid := hs
  later := .refl _ s
  settled hu hk := by simp [hu] at hk
  met := by simp
  low := by
    refine ⟨Or.inl (he.low.symm ▸ he.number), fun k hk => ?_⟩
    rcases hk with hk | ⟨a, b, ha, -, htried, -⟩
    · exact (he.low.trans (Option.some.inj (he.number.symm.trans hk))).le
    · exact absurd (htried (he.eq_of_under hs ha)) List.not_mem_nil
  cut := by
    simp only [he.cut, Bool.false_eq_true, false_iff, not_and]
    rintro - ⟨w, hw, -⟩
    exact he.parent_ne hs w hw
  branches := by
    have hkids : s.kids v = ∅ := Finset.eq_empty_of_forall_notMem fun w hw =>
      he.parent_ne hs w (mem_kids.1 hw)
    split
    · rename_i h
      rw [he.branches h, hkids, Finset.card_empty]
    · rfl

/-- The edge to the parent shows nothing new. -/
theorem parent (ht : Trying adj root v s tried t) (hw : t.number[w] = some k)
    (hp : t.parent[v] = some w) : Trying adj root v s (tried ++ [w]) t where
  valid := ht.valid
  later := ht.later
  settled := ht.settled
  met b hb := by
    rcases List.mem_append.1 hb with hb | hb
    · exact ht.met b hb
    · exact ⟨k, List.mem_singleton.1 hb ▸ hw⟩
  low := by
    convert ht.low using 3 with i
    refine or_congr_right (exists_congr fun a => exists_congr fun b => and_congr_right fun _ =>
      and_congr_right fun _ => ⟨?_, ?_⟩)
    · rintro ⟨htried, hab, hb⟩
      refine ⟨fun ha => (List.mem_append.1 (htried ha)).resolve_right fun h => hab ?_, hab, hb⟩
      rw [ha, hp, List.mem_singleton.1 h]
    · rintro ⟨htried, hab, hb⟩
      exact ⟨fun ha => List.mem_append_left _ (htried ha), hab, hb⟩
  cut := ht.cut
  branches := ht.branches

/-- An edge to another vertex that was met before shows its number. -/
theorem back (hs : Valid adj s) (he : Entered root s v j) (ht : Trying adj root v s tried t)
    (hadj : w ∈ adj v) (hw : t.number[w] = some k) (hp : t.parent[v] ≠ some w) :
    Trying adj root v s (tried ++ [w]) (t.lower v k) := by
  have hv := ht.later.number he.number
  have htouch := Touches.lower hv k
  have hvalid := ht.valid.touches htouch
  refine ⟨hvalid, ht.later.touches htouch, ?_, ?_, ?_, ?_, ?_⟩
  · intro u i hu hi
    rw [htouch.number] at hi
    exact ht.settled_extend hs he htouch.later hvalid hu hi
  · intro b hb
    rw [htouch.number]
    rcases List.mem_append.1 hb with hb | hb
    · exact ht.met b hb
    · exact ⟨k, List.mem_singleton.1 hb ▸ hw⟩
  · have hset : {i | Sees adj (t.lower v k) v (tried ++ [w]) i} =
        {i | Sees adj t v tried i} ∪ {k} := by
      ext i
      simp only [Set.mem_ofPred_eq, htouch.sees_iff, Set.mem_union, Set.mem_singleton_iff]
      constructor
      · rintro (hi | ⟨a, b, ha, hab, htried, hpa, hb⟩)
        · exact Or.inl (Or.inl hi)
        · by_cases hav : a = v
          · rcases List.mem_append.1 (htried hav) with hb' | hb'
            · exact Or.inl (Or.inr ⟨a, b, ha, hab, fun _ => hb', hpa, hb⟩)
            · rw [List.mem_singleton.1 hb'] at hb
              exact Or.inr (Option.some.inj (hb.symm.trans hw))
          · exact Or.inl (Or.inr ⟨a, b, ha, hab, fun h => absurd h hav, hpa, hb⟩)
      · rintro ((hi | ⟨a, b, ha, hab, htried, hpa, hb⟩) | rfl)
        · exact Or.inl hi
        · exact Or.inr ⟨a, b, ha, hab, fun h => List.mem_append_left _ (htried h), hpa, hb⟩
        · exact Or.inr ⟨v, w, .refl t v, hadj, fun _ => by simp, hp, hw⟩
    rw [hset, low_lower, if_pos rfl]
    exact ht.low.union isLeast_singleton
  · rw [htouch.cutsOff_iff ht.valid]
    exact ht.cut
  · rw [htouch.kids_eq]
    exact ht.branches

/-- An edge to a vertex that was met before is looked along. -/
theorem glance (hs : Valid adj s) (he : Entered root s v j) (ht : Trying adj root v s tried t)
    (hadj : w ∈ adj v) (hw : t.number[w] = some k) :
    Trying adj root v s (tried ++ [w]) (t.glance v w k) := by
  unfold LowLink.glance
  split
  · rename_i hp
    exact ht.parent hw hp
  · rename_i hp
    exact ht.back hs he hadj hw hp

/-- A vertex with a greater number than `v` hangs below `v`. -/
theorem under_of_lt (hs : Valid adj s) (he : Entered root s v j)
    (ht : Trying adj root v s tried t) (hk : t.number[u] = some k) (hlt : j < k) :
    t.Under v u := by
  refine (ht.settled (Option.eq_none_iff_forall_ne_some.2 fun l hl => ?_) hk).1
  obtain rfl := Option.some.inj ((ht.later.number hl).symm.trans hk)
  have := hs.lt_next hl
  have := he.next
  omega

/-- A vertex that is no root is settled when all its neighbours were tried. -/
theorem settled_self (hs : Valid adj s) (he : Entered root s v j)
    (ht : Trying adj root v s (adj v) t) (hne : v ≠ root) : Settled adj t v where
  met := ht.met
  down b _ i k hi hk hlt := by
    obtain rfl := Option.some.inj ((ht.later.number he.number).symm.trans hi)
    exact ht.under_of_lt hs he hk hlt
  low := ht.low
  cut := by
    have hp : s.parent[v] ≠ none := fun h => hne (he.parent.1 h)
    rw [ht.cut, ShowsCut, ht.later.parent he.number]
    exact ⟨fun h => Or.inr ⟨hp, h.2⟩, fun h => ⟨hne, (h.resolve_left fun h' => hp h'.1).2⟩⟩

/-! ## An edge to a new vertex -/

/-- A vertex that is met from `v` is no root and has the next number. -/
theorem entered_descend (he : Entered root s v j) (ht : Trying adj root v s tried t)
    (hw : t.number[w] = none) : Entered root (t.descend root v w) w t.next := by
  have hm := meets_descend hw root v
  obtain ⟨i, hi⟩ := he.root_met
  have hne : w ≠ root := by
    rintro rfl
    simp [ht.later.number hi] at hw
  refine ⟨?_, hm.next, ?_, ?_, ?_, ⟨i, ?_⟩, fun h => absurd h hne⟩
  · rw [hm.number, if_pos rfl]
  · rw [hm.low, if_pos rfl]
  · rw [hm.cut, ht.valid.cut hw]
  · rw [hm.parent, if_pos rfl]
    simp [hne]
  · rw [hm.number, if_neg hne, ht.later.number hi]

theorem valid_descend (he : Entered root s v j) (ht : Trying adj root v s tried t)
    (hadj : w ∈ adj v) (hw : t.number[w] = none) : Valid adj (t.descend root v w) := by
  refine ht.valid.meets (meets_descend hw root v) fun p hp => ?_
  obtain rfl := Option.some.inj hp
  exact ⟨hadj, j, ht.later.number he.number⟩

/-- Exploring `w` is part of exploring `v`. -/
theorem later_forth (hw : t.number[w] = none)
    (hx : Trying adj root w (t.descend root v w) (adj w) r) : Extends (some v) t r :=
  .of_meets (meets_descend hw root v) hx.later

theorem number_forth (hw : t.number[w] = none)
    (hx : Trying adj root w (t.descend root v w) (adj w) r) : r.number[w] = some t.next := by
  refine hx.later.number ?_
  rw [(meets_descend hw root v).number, if_pos rfl]

/-- The vertices met since hang below `w`. -/
theorem under_forth (hw : t.number[w] = none)
    (hx : Trying adj root w (t.descend root v w) (adj w) r) (hu : t.number[u] = none)
    (hk : r.number[u] = some k) : r.Under w u := by
  by_cases hwu : w = u
  · exact hwu ▸ .refl r w
  · refine (hx.settled ?_ hk).1
    rw [(meets_descend hw root v).number, if_neg hwu, hu]

/-- What hangs below `w` was met since. -/
theorem number_of_under_forth (ht : Trying adj root v s tried t) (hw : t.number[w] = none)
    (hx : Trying adj root w (t.descend root v w) (adj w) r) (hu : r.Under w u) :
    t.number[u] = none := by
  refine Option.eq_none_iff_forall_ne_some.2 fun i hi => ?_
  have := hx.valid.le_of_under hu (number_forth hw hx) ((later_forth hw hx).number hi)
  have := ht.valid.lt_next hi
  omega

/-- What hangs below `w` is settled. -/
theorem settled_forth (he : Entered root s v j) (ht : Trying adj root v s tried t)
    (hadj : w ∈ adj v) (hw : t.number[w] = none)
    (hx : Trying adj root w (t.descend root v w) (adj w) r) (hu : r.Under w u) :
    Settled adj r u := by
  have he' := entered_descend he ht hw
  by_cases huw : u = w
  · subst huw
    refine hx.settled_self (valid_descend he ht hadj hw) he' ?_
    rintro rfl
    obtain ⟨i, hi⟩ := he.root_met
    simp [ht.later.number hi] at hw
  · obtain ⟨k, hk⟩ := hx.valid.met_of_under hu (number_forth hw hx)
    refine (hx.settled ?_ hk).2
    rw [(meets_descend hw root v).number, if_neg (Ne.symm huw)]
    exact number_of_under_forth ht hw hx hu

/-- The children of `v` are those from before and `w`. -/
theorem parent_forth (he : Entered root s v j) (ht : Trying adj root v s tried t)
    (hw : t.number[w] = none) (hx : Trying adj root w (t.descend root v w) (adj w) r) :
    r.parent[u] = some v ↔ t.parent[u] = some v ∨ u = w := by
  have hlater := later_forth hw hx
  constructor
  · intro hp
    obtain ⟨-, -, k, -, hk, -⟩ := hx.valid.parent hp
    cases hi : t.number[u] with
    | some i => exact Or.inl (hlater.parent hi ▸ hp)
    | none =>
      by_cases huw : u = w
      · exact Or.inr huw
      · obtain ⟨q, hq, hwq⟩ := (under_forth hw hx hi hk).exists_parent huw
        obtain rfl := Option.some.inj (hp.symm.trans hq)
        have := number_of_under_forth ht hw hx hwq
        simp [ht.later.number he.number] at this
  · rintro (hp | rfl)
    · obtain ⟨-, -, i, -, hi, -⟩ := ht.valid.parent hp
      exact hlater.parent hi ▸ hp
    · have hm := meets_descend hw root v
      have hnum : (t.descend root v u).number[u] = some t.next := by rw [hm.number, if_pos rfl]
      rw [hx.later.parent hnum, hm.parent, if_pos rfl]

/-- From `v` is seen what was seen before and what is seen from `w`. -/
theorem sees_forth (hs : Valid adj s) (he : Entered root s v j)
    (ht : Trying adj root v s tried t) (hadj : w ∈ adj v) (hw : t.number[w] = none)
    (hx : Trying adj root w (t.descend root v w) (adj w) r) :
    Sees adj r v (tried ++ [w]) k ↔ Sees adj t v tried k ∨ Sees adj r w (adj w) k := by
  have hlater := later_forth hw hx
  have hv := ht.later.number he.number
  have hvw : r.Under v w := .of_parent ((parent_forth he ht hw hx).2 (Or.inr rfl))
  constructor
  · rintro (hk | ⟨a, b, ha, hab, htried, hp, hb⟩)
    · exact Or.inl (Or.inl (hlater.number_eq hv ▸ hk))
    obtain ⟨i, hi⟩ := hx.valid.met_of_under ha (hlater.number hv)
    cases hia : t.number[a] with
    | none =>
      exact Or.inr (Or.inr ⟨a, b, under_forth hw hx hia hi, hab, fun h => h ▸ hab, hp, hb⟩)
    | some i' =>
      have ha' := hlater.under_of_met ht.valid ha hia
      rw [hlater.parent hia] at hp
      by_cases hav : a = v
      · rcases List.mem_append.1 (htried hav) with hb' | hb'
        · obtain ⟨l, hl⟩ := ht.met b hb'
          exact Or.inl (Or.inr ⟨a, b, ha', hab, fun _ => hb', hp, hlater.number_eq hl ▸ hb⟩)
        · exact Or.inr (Or.inl (List.mem_singleton.1 hb' ▸ hb))
      · have hfresh : s.number[a] = none := Option.eq_none_iff_forall_ne_some.2 fun l hl =>
          hav (he.eq_of_under hs (ht.later.under_of_met hs ha' hl))
        obtain ⟨l, hl⟩ := (ht.settled hfresh hia).2.met b hab
        refine Or.inl (Or.inr ⟨a, b, ha', hab, fun h => absurd h hav, hp, ?_⟩)
        exact hlater.number_eq hl ▸ hb
  · rintro (hk | hk | ⟨a, b, ha, hab, htried, hp, hb⟩)
    · exact (hlater.sees ht.valid hv hk).mono fun b hb => List.mem_append_left _ hb
    · refine Or.inr ⟨v, w, .refl r v, hadj, fun _ => by simp, fun hp => ?_, hk⟩
      obtain ⟨-, i, -, hi, -⟩ := ht.valid.parent (hlater.parent hv ▸ hp)
      simp [hw] at hi
    · refine Or.inr ⟨a, b, hvw.trans ha, hab, fun hav => ?_, hp, hb⟩
      have := number_of_under_forth ht hw hx (hav ▸ ha)
      simp [hv] at this

/-- Nothing in the subtree of some child leads above `v`: this is so before, or of `w`. -/
theorem cutsOff_forth (he : Entered root s v j) (ht : Trying adj root v s tried t)
    (hw : t.number[w] = none) (hx : Trying adj root w (t.descend root v w) (adj w) r) :
    r.CutsOff v ↔ t.CutsOff v ∨ j ≤ r.low[w] := by
  have hlater := later_forth hw hx
  have hv := ht.later.number he.number
  -- The lows of the children from before stay, since none of them is above `w`.
  have hlow : ∀ {x : Fin n}, t.parent[x] = some v → r.low[x] = t.low[x] := by
    intro x hp
    obtain ⟨-, i, k, hi, hk, hlt⟩ := ht.valid.parent hp
    refine hlater.low hk fun e => ?_
    obtain rfl := Option.some.inj e
    have := Option.some.inj (hi.symm.trans hk)
    omega
  simp only [CutsOff, parent_forth he ht hw hx, hlater.number_eq hv, hv, Option.some.injEq,
    exists_eq_left']
  constructor
  · rintro ⟨x, hp | rfl, hj⟩
    · exact Or.inl ⟨x, hp, hlow hp ▸ hj⟩
    · exact Or.inr hj
  · rintro (⟨x, hp, hj⟩ | hj)
    · exact ⟨x, Or.inl hp, (hlow hp).symm ▸ hj⟩
    · exact ⟨w, Or.inr rfl, hj⟩

/-- The children of the root are counted. -/
theorem branches_forth (he : Entered root s v j) (ht : Trying adj root v s tried t)
    (hw : t.number[w] = none) (hx : Trying adj root w (t.descend root v w) (adj w) r) :
    r.branches = if v = root then (r.kids v).card else s.branches := by
  have hne : w ≠ root := by
    rintro rfl
    obtain ⟨i, hi⟩ := he.root_met
    simp [ht.later.number hi] at hw
  have hkids : r.kids v = insert w (t.kids v) := by
    ext u
    rw [mem_kids, parent_forth he ht hw hx, Finset.mem_insert, mem_kids, or_comm]
  have hnew : w ∉ t.kids v := by
    rw [mem_kids, ht.valid.parent_eq_none hw]
    simp
  rw [hx.branches, if_neg hne, hkids, Finset.card_insert_of_notMem hnew, descend]
  have := ht.branches
  split
  · rw [if_pos ‹_›] at this
    exact congrArg (· + 1) this
  · rw [if_neg ‹_›] at this
    exact this

theorem ne_of_new (he : Entered root s v j) (ht : Trying adj root v s tried t)
    (hw : t.number[w] = none) : w ≠ v := by
  rintro rfl
  simp [ht.later.number he.number] at hw

/-- The low and the mark of `v` do not change while `w` is explored. -/
theorem entries_forth (he : Entered root s v j) (ht : Trying adj root v s tried t)
    (hw : t.number[w] = none) (hx : Trying adj root w (t.descend root v w) (adj w) r) :
    r.low[v] = t.low[v] ∧ r.cut[v] = t.cut[v] := by
  have hwv := ne_of_new he ht hw
  have hm := meets_descend hw root v
  have hnum : (t.descend root v w).number[v] = some j := by
    rw [hm.number, if_neg hwv, ht.later.number he.number]
  refine ⟨?_, ?_⟩
  · rw [hx.later.low hnum (by simpa using hwv), hm.low, if_neg hwv]
  · rw [hx.later.cut hnum (by simpa using hwv), hm.cut]

/-- The vertices met from `w` on are under `v`, and stay settled when the search backs out. -/
theorem settled_backOut (he : Entered root s v j) (ht : Trying adj root v s tried t)
    (hadj : w ∈ adj v) (hw : t.number[w] = none)
    (hx : Trying adj root w (t.descend root v w) (adj w) r)
    (below : List (Fin n × List (Fin n))) (untried : List (Fin n)) (hi : t.number[u] = none)
    (hk : r.number[u] = some k) :
    (r.backOut root w ((v, untried) :: below)).Under v u ∧
      Settled adj (r.backOut root w ((v, untried) :: below)) u := by
  have hv := ht.later.number he.number
  have htouch := Touches.backOut ((later_forth hw hx).number hv) root w below untried
  have hwu := under_forth hw hx hi hk
  have hvu : r.Under v u := (Under.of_parent ((parent_forth he ht hw hx).2 (Or.inr rfl))).trans hwu
  refine ⟨htouch.under_iff.2 hvu, htouch.later.settled hx.valid (hx.valid.touches htouch) hk ?_ ?_⟩
  · rintro p hp huv
    obtain rfl := Option.some.inj hp
    have := number_of_under_forth ht hw hx (hwu.trans huv)
    simp [hv] at this
  · exact fun a ha => settled_forth he ht hadj hw hx (hwu.trans ha)

/-- An edge to a new vertex is followed, and the search backs out of it again. -/
theorem forth (hs : Valid adj s) (he : Entered root s v j) (ht : Trying adj root v s tried t)
    (hadj : w ∈ adj v) (hw : t.number[w] = none)
    (hx : Trying adj root w (t.descend root v w) (adj w) r)
    (below : List (Fin n × List (Fin n))) (untried : List (Fin n)) :
    Trying adj root v s (tried ++ [w]) (r.backOut root w ((v, untried) :: below)) := by
  have hlater := later_forth hw hx
  have hv := hlater.number (ht.later.number he.number)
  have htouch := Touches.backOut hv root w below untried
  have hvalid := hx.valid.touches htouch
  have hentries := entries_forth he ht hw hx
  refine ⟨hvalid, ht.later.trans (hlater.touches htouch), ?_, ?_, ?_, ?_, ?_⟩
  · intro u k hu hk
    rw [htouch.number] at hk
    cases hi : t.number[u] with
    | some i => exact ht.settled_extend hs he (hlater.touches htouch) hvalid hu hi
    | none => exact settled_backOut he ht hadj hw hx below untried hi hk
  · intro b hb
    rw [htouch.number]
    rcases List.mem_append.1 hb with hb | hb
    · obtain ⟨k, hk⟩ := ht.met b hb
      exact ⟨k, hlater.number hk⟩
    · exact ⟨t.next, List.mem_singleton.1 hb ▸ number_forth hw hx⟩
  · have hset : {k | Sees adj (r.backOut root w ((v, untried) :: below)) v (tried ++ [w]) k} =
        {k | Sees adj t v tried k} ∪ {k | Sees adj r w (adj w) k} := by
      ext k
      simp only [Set.mem_ofPred_eq, Set.mem_union, htouch.sees_iff]
      exact sees_forth hs he ht hadj hw hx
    rw [hset, low_backOut, hentries.1]
    exact ht.low.union hx.low
  · rw [htouch.cutsOff_iff hx.valid, cutsOff_forth he ht hw hx,
      cut_backOut _ _ _ (ne_of_new he ht hw), hentries.2, ht.cut, hv]
    simp only [Option.some.injEq, exists_eq_left', and_or_left]
  · rw [htouch.branches, htouch.kids_eq]
    exact branches_forth he ht hw hx

end Trying

/-! ## The recursion -/

/-- Tries the edge from `v` to `w`, given how a new vertex is explored. -/
def tryEdge (root : Fin n) (deeper : Fin n → LowLink n → LowLink n) (v : Fin n) (s : LowLink n)
    (w : Fin n) : LowLink n :=
  match s.number[w] with
  | none => (deeper w (s.descend root v w)).backOut root w [(v, [])]
  | some k => s.glance v w k

/-- Explores a vertex that was met. The first argument bounds the depth of its subtree. -/
def explore (adj : Adjacency n) (root : Fin n) : Nat → Fin n → LowLink n → LowLink n
  | 0, _, s => s
  | depth + 1, v, s => (adj v).foldl (tryEdge root (explore adj root depth) v) s

theorem explore_succ (adj : Adjacency n) (root : Fin n) (depth : Nat) (v : Fin n)
    (s : LowLink n) : explore adj root (depth + 1) v s =
      (adj v).foldl (tryEdge root (explore adj root depth) v) s := rfl

/-- If new vertices are explored, so is a vertex of which some neighbours were tried. -/
theorem trying_foldl {deeper : Fin n → LowLink n → LowLink n} (hs : Valid adj s)
    (he : Entered root s v j)
    (hdeeper : ∀ {t : LowLink n} {w : Fin n}, s.next ≤ t.next → Valid adj (t.descend root v w) →
      Entered root (t.descend root v w) w t.next →
        Trying adj root w (t.descend root v w) (adj w) (deeper w (t.descend root v w)))
    (ws : List (Fin n)) (hws : ∀ w ∈ ws, w ∈ adj v) (ht : Trying adj root v s tried t) :
    Trying adj root v s (tried ++ ws) (ws.foldl (tryEdge root deeper v) t) := by
  induction ws generalizing tried t with
  | nil => simpa using ht
  | cons w ws ih =>
    have hw := hws w List.mem_cons_self
    have hstep : Trying adj root v s (tried ++ [w]) (tryEdge root deeper v t w) := by
      unfold tryEdge
      split
      · rename_i hnone
        exact ht.forth hs he hw hnone (hdeeper ht.later.next_le
          (Trying.valid_descend he ht hw hnone) (Trying.entered_descend he ht hnone)) [] []
      · rename_i hk
        exact ht.glance hs he hw hk
    have := ih (fun w h => hws w (List.mem_cons_of_mem _ h)) hstep
    rwa [List.append_assoc] at this

/-- Exploring a vertex tries all its neighbours, if the depth is not exceeded. -/
theorem trying_explore {depth : Nat} (hs : Valid adj s) (he : Entered root s v j)
    (hdepth : n < s.next + depth) : Trying adj root v s (adj v) (explore adj root depth v s) := by
  induction depth generalizing v s j with
  | zero =>
    have := hs.next_le
    omega
  | succ depth ih =>
    refine trying_foldl hs he (fun hle hvalid hentered => ih hvalid hentered ?_) (adj v)
      (fun _ => id) (.entered hs he)
    rw [hentered.next]
    omega

end CouplingMap.Graph.LowLink
