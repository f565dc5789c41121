import CouplingMap.Graph.LowLink
import Mathlib.Data.Fintype.Card
import Mathlib.Logic.Relation

/-!
# The records of a depth-first search

* `LowLink.Under`: the tree of parents; the vertices above a vertex are in line.
* `LowLink.Valid`: numbers are given once and in order, and a parent is a neighbour with a less
  number.
* `LowLink.Meets`, `LowLink.Touches`: the two ways in which records change; both keep them valid.
-/

namespace CouplingMap.Graph.LowLink

variable {n : Nat} {adj : Adjacency n} {s t r : LowLink n} {u v w : Fin n} {j k : Nat}
  {above : Option (Fin n)}

/-! ## The tree of parents -/

/-- `u` is `v` or hangs below `v`. -/
def Under (s : LowLink n) : Fin n → Fin n → Prop :=
  Relation.ReflTransGen fun v u => s.parent[u] = some v

namespace Under

theorem refl (s : LowLink n) (v : Fin n) : s.Under v v := Relation.ReflTransGen.refl

theorem trans (h : s.Under u v) (h' : s.Under v w) : s.Under u w :=
  Relation.ReflTransGen.trans h h'

theorem of_parent (h : s.parent[w] = some v) : s.Under v w := Relation.ReflTransGen.single h

/-- A vertex that hangs below another one hangs below a child of it. -/
theorem exists_child (h : s.Under v u) (hne : u ≠ v) :
    ∃ w, s.parent[w] = some v ∧ s.Under w u := by
  rcases Relation.ReflTransGen.cases_head h with rfl | ⟨w, hw, hu⟩
  · exact absurd rfl hne
  · exact ⟨w, hw, hu⟩

/-- A vertex that hangs below another one hangs there through its parent. -/
theorem exists_parent (h : s.Under v u) (hne : u ≠ v) :
    ∃ p, s.parent[u] = some p ∧ s.Under v p := by
  rcases Relation.ReflTransGen.cases_tail h with rfl | ⟨p, hp, hu⟩
  · exact absurd rfl hne
  · exact ⟨p, hu, hp⟩

/-- The vertices above a vertex are in line. -/
theorem total (h : s.Under v u) (h' : s.Under w u) : s.Under v w ∨ s.Under w v := by
  induction h with
  | refl => exact Or.inr h'
  | tail hx hp ih =>
    rcases Relation.ReflTransGen.cases_tail h' with rfl | ⟨q, hq, hp'⟩
    · exact Or.inl (hx.tail hp)
    · obtain rfl := Option.some.inj (hp.symm.trans hp')
      exact ih hq

end Under

/-- The children of a vertex. -/
def kids (s : LowLink n) (v : Fin n) : Finset (Fin n) :=
  Finset.univ.filter fun w => s.parent[w] = some v

@[simp] theorem mem_kids : w ∈ s.kids v ↔ s.parent[w] = some v := by simp [kids]

/-! ## What holds at all times -/

/-- What holds of the records at all times. -/
structure Valid (adj : Adjacency n) (s : LowLink n) : Prop where
  lt_next : ∀ {u : Fin n} {k : Nat}, s.number[u] = some k → k < s.next
  injective : ∀ {u w : Fin n} {k : Nat}, s.number[u] = some k → s.number[w] = some k → u = w
  surjective : ∀ {k : Nat}, k < s.next → ∃ u : Fin n, s.number[u] = some k
  parent : ∀ {v w : Fin n}, s.parent[w] = some v →
    w ∈ adj v ∧ ∃ j k, s.number[v] = some j ∧ s.number[w] = some k ∧ j < k
  cut : ∀ {u : Fin n}, s.number[u] = none → s.cut[u] = false

/-- `t` are the records `s` after `w` was met below `above`. -/
structure Meets (above : Option (Fin n)) (w : Fin n) (s t : LowLink n) : Prop where
  new : s.number[w] = none
  number : ∀ u : Fin n, t.number[u] = if w = u then some s.next else s.number[u]
  low : ∀ u : Fin n, t.low[u] = if w = u then s.next else s.low[u]
  parent : ∀ u : Fin n, t.parent[u] = if w = u then above else s.parent[u]
  cut : ∀ u : Fin n, t.cut[u] = s.cut[u]
  next : t.next = s.next + 1

/-- `t` differs from `s` at most in the low and the mark of `v`, which was met. -/
structure Touches (v : Fin n) (s t : LowLink n) : Prop where
  met : ∃ j, s.number[v] = some j
  number : ∀ u : Fin n, t.number[u] = s.number[u]
  low : ∀ u : Fin n, u ≠ v → t.low[u] = s.low[u]
  parent : ∀ u : Fin n, t.parent[u] = s.parent[u]
  cut : ∀ u : Fin n, u ≠ v → t.cut[u] = s.cut[u]
  next : t.next = s.next
  branches : t.branches = s.branches

theorem meets_meet (hw : s.number[w] = none) : Meets above w s (s.meet w above) where
  new := hw
  number u := by simp only [meet, Ledger.getElem_set]
  low u := by simp only [meet, Ledger.getElem_set]
  parent u := by simp only [meet, Ledger.getElem_set]
  cut _ := rfl
  next := rfl

theorem meets_descend (hw : s.number[w] = none) (root v : Fin n) :
    Meets (some v) w s (s.descend root v w) := by
  unfold descend
  have h : Meets (some v) w s (s.meet w (some v)) := meets_meet hw
  split
  · exact ⟨hw, h.number, h.low, h.parent, h.cut, h.next⟩
  · exact h

theorem low_lower (s : LowLink n) (v : Fin n) (k : Nat) (u : Fin n) :
    (s.lower v k).low[u] = if v = u then min s.low[v] k else s.low[u] := by
  simp only [lower, Ledger.getElem_set]

theorem cut_mark (s : LowLink n) (v u : Fin n) :
    (s.mark v).cut[u] = if v = u then true else s.cut[u] := by
  simp only [mark, Ledger.getElem_set]

section BackOut

variable (root : Fin n) (untried : List (Fin n)) (below : List (Fin n × List (Fin n)))

/-- Backing out of `w` lowers the low of the vertex below it. -/
theorem low_backOut (s : LowLink n) (v w : Fin n) :
    (s.backOut root w ((v, untried) :: below)).low[v] = min s.low[v] s.low[w] := by
  have h := low_lower s v s.low[w] v
  rw [if_pos rfl] at h
  unfold backOut
  dsimp only
  split
  · exact h
  · exact h

/-- Backing out of `w` marks the vertex below it if that is no root and cuts `w` off. -/
theorem cut_backOut (hne : w ≠ v) :
    (s.backOut root w ((v, untried) :: below)).cut[v] = true ↔
      s.cut[v] = true ∨ v ≠ root ∧ ∃ j, s.number[v] = some j ∧ j ≤ s.low[w] := by
  have h : (s.lower v s.low[w]).low[w] = s.low[w] := by rw [low_lower, if_neg hne.symm]
  have hcond :
      ((s.lower v s.low[w]).number[v].any fun k => k ≤ (s.lower v s.low[w]).low[w]) = true ↔
        ∃ j, s.number[v] = some j ∧ j ≤ s.low[w] := by
    rw [h, Option.any_eq_true]
    simp only [decide_eq_true_eq, lower]
  unfold backOut
  dsimp only
  split
  · rename_i hc
    rw [cut_mark, if_pos rfl]
    simp only [true_iff]
    exact Or.inr ⟨hc.1, hcond.1 hc.2⟩
  · rename_i hc
    exact ⟨Or.inl, fun h' => h'.resolve_right fun hr => hc ⟨hr.1, hcond.2 hr.2⟩⟩

end BackOut

namespace Touches

theorem lower (hv : s.number[v] = some j) (k : Nat) : Touches v s (s.lower v k) where
  met := ⟨j, hv⟩
  number _ := rfl
  low u hu := by rw [low_lower, if_neg hu.symm]
  parent _ := rfl
  cut _ _ := rfl
  next := rfl
  branches := rfl

theorem mark (hv : s.number[v] = some j) : Touches v s (s.mark v) where
  met := ⟨j, hv⟩
  number _ := rfl
  low _ _ := rfl
  parent _ := rfl
  cut u hu := by rw [cut_mark, if_neg hu.symm]
  next := rfl
  branches := rfl

theorem trans (h : Touches v s t) (h' : Touches v t r) : Touches v s r where
  met := h.met
  number u := (h'.number u).trans (h.number u)
  low u hu := (h'.low u hu).trans (h.low u hu)
  parent u := (h'.parent u).trans (h.parent u)
  cut u hu := (h'.cut u hu).trans (h.cut u hu)
  next := h'.next.trans h.next
  branches := h'.branches.trans h.branches

/-- Backing out of `w` into `v` touches `v` only. -/
theorem backOut (hv : s.number[v] = some j) (root w : Fin n) (below : List (Fin n × List (Fin n)))
    (tried : List (Fin n)) : Touches v s (s.backOut root w ((v, tried) :: below)) := by
  have h := Touches.lower hv s.low[w]
  unfold LowLink.backOut
  dsimp only
  split
  · exact h.trans (Touches.mark (j := j) hv)
  · exact h

end Touches

namespace Valid

theorem next_le (hs : Valid adj s) : s.next ≤ n := by
  choose f hf using fun k : Fin s.next => hs.surjective k.isLt
  have hinj : Function.Injective f := fun i j h =>
    Fin.ext (Option.some.inj ((hf i).symm.trans (h ▸ hf j)))
  simpa using Fintype.card_le_of_injective f hinj

/-- Numbers do not decrease down the tree. -/
theorem le_of_under (hs : Valid adj s) (h : s.Under v u) (hv : s.number[v] = some j)
    (hu : s.number[u] = some k) : j ≤ k := by
  induction h generalizing k with
  | refl => exact (Option.some.inj (hv.symm.trans hu)).le
  | tail _ hp ih =>
    obtain ⟨-, i, l, hi, hl, hlt⟩ := hs.parent hp
    obtain rfl := Option.some.inj (hl.symm.trans hu)
    exact (ih hi).trans hlt.le

/-- What hangs below a vertex that was met was met. -/
theorem met_of_under (hs : Valid adj s) (h : s.Under v u) (hv : s.number[v] = some j) :
    ∃ k, s.number[u] = some k := by
  rcases Relation.ReflTransGen.cases_tail h with rfl | ⟨p, -, hp⟩
  · exact ⟨j, hv⟩
  · obtain ⟨-, -, k, -, hk, -⟩ := hs.parent hp
    exact ⟨k, hk⟩

theorem parent_eq_none (hs : Valid adj s) (h : s.number[u] = none) : s.parent[u] = none := by
  cases hp : s.parent[u] with
  | none => rfl
  | some p =>
    obtain ⟨-, -, k, -, hk, -⟩ := hs.parent hp
    rw [h] at hk
    contradiction

protected theorem start : Valid adj (start n) where
  lt_next := by simp [LowLink.start]
  injective := by simp [LowLink.start]
  surjective := by simp [LowLink.start]
  parent := by simp [LowLink.start]
  cut := by simp [LowLink.start]

/-- Meeting a vertex gives it the next number. -/
theorem meets (hs : Valid adj s) (hm : Meets above w s t)
    (hp : ∀ v, above = some v → w ∈ adj v ∧ ∃ j, s.number[v] = some j) : Valid adj t := by
  have hold : ∀ {u : Fin n} {k : Nat}, s.number[u] = some k → t.number[u] = some k := by
    intro u k hu
    rw [hm.number, if_neg, hu]
    rintro rfl
    simp [hm.new] at hu
  have hnew : t.number[w] = some s.next := by rw [hm.number, if_pos rfl]
  refine ⟨?_, ?_, ?_, ?_, ?_⟩
  · intro u k hu
    rw [hm.number] at hu
    rw [hm.next]
    split at hu
    · exact Option.some.inj hu ▸ Nat.lt_succ_self _
    · exact (hs.lt_next hu).trans (Nat.lt_succ_self _)
  · intro u x k hu hx
    rw [hm.number] at hu hx
    split at hu <;> split at hx
    · rename_i h h'
      exact h.symm.trans h'
    · exact absurd (hs.lt_next hx) (by simp [Option.some.inj hu])
    · exact absurd (hs.lt_next hu) (by simp [Option.some.inj hx])
    · exact hs.injective hu hx
  · intro k hk
    rw [hm.next] at hk
    rcases Nat.lt_succ_iff_lt_or_eq.1 hk with hk | rfl
    · obtain ⟨u, hu⟩ := hs.surjective hk
      exact ⟨u, hold hu⟩
    · exact ⟨w, hnew⟩
  · intro v u hu
    rw [hm.parent] at hu
    split at hu
    · rename_i h
      subst h
      obtain ⟨hadj, j, hj⟩ := hp v hu
      exact ⟨hadj, j, s.next, hold hj, hnew, hs.lt_next hj⟩
    · obtain ⟨hadj, j, k, hj, hk, hlt⟩ := hs.parent hu
      exact ⟨hadj, j, k, hold hj, hold hk, hlt⟩
  · intro u hu
    rw [hm.number] at hu
    split at hu
    · contradiction
    · rw [hm.cut, hs.cut hu]

/-- Lows and marks of vertices that were met play no part in validity. -/
theorem touches (hs : Valid adj s) (ht : Touches v s t) : Valid adj t := by
  obtain ⟨j, hv⟩ := ht.met
  refine ⟨?_, ?_, ?_, ?_, ?_⟩
  · intro u k hu
    rw [ht.number] at hu
    exact ht.next ▸ hs.lt_next hu
  · intro u x k hu hx
    rw [ht.number] at hu hx
    exact hs.injective hu hx
  · intro k hk
    obtain ⟨u, hu⟩ := hs.surjective (ht.next ▸ hk)
    exact ⟨u, (ht.number u).trans hu⟩
  · intro p u hu
    rw [ht.parent] at hu
    simpa only [ht.number] using hs.parent hu
  · intro u hu
    rw [ht.number] at hu
    rw [ht.cut, hs.cut hu]
    rintro rfl
    simp [hu] at hv

end Valid

end CouplingMap.Graph.LowLink
