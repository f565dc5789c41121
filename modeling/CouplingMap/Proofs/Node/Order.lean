import CouplingMap.Node.Basic
import Mathlib.Data.List.Basic

/-!
# Nodes in order

* `Node.eq_of_compare`: only the same nodes have the same place in the order.
* `Node.sorted_perm`, `Node.pairwise_sorted`: sorting lists the same nodes in ascending order.
* `Node.perm_taken`: nodes that are taken from a list, and the other ones.
-/

namespace CouplingMap.Node

variable {a b n : Node} {ns : List Node}

instance : Std.TransOrd Node :=
  inferInstanceAs (Std.TransCmp (compareLex (compareOn register) (compareOn index)))

theorem eq_of_compare (h : compare a b = .eq) : a = b := by
  obtain ⟨hregister, hindex⟩ := Ordering.then_eq_eq.1 h
  have hregister := Std.LawfulEqOrd.eq_of_compare hregister
  have hindex := Std.LawfulEqOrd.eq_of_compare hindex
  have hcoordinates : a.coordinates = b.coordinates := by
    rw [← Option.some.injEq, ← Coordinates.ofList?_toList, ← Coordinates.ofList?_toList]
    exact congrArg Coordinates.ofList? hindex
  cases a
  cases b
  exact congrArg₂ mk hregister hcoordinates

@[simp] theorem mem_sorted : n ∈ sorted ns ↔ n ∈ ns := (List.mergeSort_perm _ _).mem_iff

theorem sorted_perm (ns : List Node) : (sorted ns).Perm ns := List.mergeSort_perm _ _

/-- Sorting puts different nodes in ascending order. -/
theorem pairwise_sorted (h : ns.Nodup) : (sorted ns).Pairwise fun a b => compare a b = .lt := by
  have htrans (a b c : Node) : notAfter a b → notAfter b c → notAfter a c := Std.TransOrd.isLE_trans
  have htotal (a b : Node) : notAfter a b || notAfter b a := by
    rw [notAfter, notAfter, Std.OrientedOrd.eq_swap]
    cases compare b a <;> rfl
  have hne : (sorted ns).Nodup := (sorted_perm ns).nodup_iff.2 h
  refine ((List.pairwise_mergeSort htrans htotal ns).and hne).imp ?_
  rintro a b ⟨hle, hab⟩
  cases hc : compare a b with
  | lt => rfl
  | eq => exact absurd (eq_of_compare hc) hab
  | gt => simp [notAfter, hc] at hle

/-- Sorting forgets in which order different nodes were listed. -/
theorem sorted_eq_of_perm {ms : List Node} (hns : ns.Nodup) (h : ns.Perm ms) :
    sorted ns = sorted ms := by
  refine List.Perm.eq_of_pairwise (fun a b _ _ hab hba => ?_) (pairwise_sorted hns)
    (pairwise_sorted (h.nodup_iff.1 hns)) ((sorted_perm ns).trans (h.trans (sorted_perm ms).symm))
  rw [Std.OrientedOrd.eq_swap, hba] at hab
  contradiction

/-- In ascending order the lesser node comes first. -/
theorem idxOf_le_idxOf (h : ns.Pairwise fun a b => compare a b = .lt) (ha : a ∈ ns) (hb : b ∈ ns)
    (hab : a ≠ b) : ns.idxOf a ≤ ns.idxOf b ↔ compare a b = .lt := by
  have before {a b : Node} (ha : a ∈ ns) (hb : b ∈ ns) (hlt : ns.idxOf a < ns.idxOf b) :
      compare a b = .lt := by
    have hlt := List.pairwise_iff_getElem.1 h _ _ (List.idxOf_lt_length_of_mem ha)
      (List.idxOf_lt_length_of_mem hb) hlt
    rwa [List.getElem_idxOf, List.getElem_idxOf] at hlt
  constructor
  · intro hle
    refine before ha hb (Nat.lt_of_le_of_ne hle fun he => hab ?_)
    exact (List.idxOf_inj ha).1 he
  · intro hlt
    by_contra hgt
    have hba := before hb ha (Nat.not_le.1 hgt)
    rw [Std.OrientedOrd.eq_swap, hlt] at hba
    contradiction

/-- Different nodes that are taken from a list make the list with those that stay. -/
theorem perm_taken {taken : List Node} (htaken : taken.Nodup) (hns : ns.Nodup)
    (hmem : ∀ n ∈ taken, n ∈ ns) : (taken ++ ns.filter fun n => n ∉ taken).Perm ns := by
  have hnodup : (taken ++ ns.filter fun n => n ∉ taken).Nodup := by
    refine List.nodup_append.2 ⟨htaken, hns.filter _, fun n hn m hm hnm => ?_⟩
    have hstays : m ∉ taken := by simpa using (List.mem_filter.1 hm).2
    exact hstays (hnm ▸ hn)
  refine (List.perm_ext_iff_of_nodup hnodup hns).2 fun n => ?_
  by_cases hn : n ∈ taken
  · simp [hn, hmem n hn]
  · simp [hn]

end CouplingMap.Node
