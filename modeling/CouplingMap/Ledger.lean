/-!
# Ledgers

A ledger has an entry for every number below its size.

* `Ledger.set`, `Ledger.ofFn`, `Ledger.map`: `getElem_set`, `getElem_ofFn` and `getElem_map` tell
  the entries afterwards.
* `Ledger.gather`: the items of a list, entered under their keys in the order of the list.
-/

namespace CouplingMap

/-- An entry for every number below `n`. -/
structure Ledger (α : Type) (n : Nat) where
  row : Vector α n

namespace Ledger

variable {α β : Type} {n : Nat}

instance : GetElem (Ledger α n) (Fin n) α fun _ _ => True where
  getElem l v _ := l.row.get v

/-- The same entry everywhere. -/
def replicate (n : Nat) (x : α) : Ledger α n := ⟨.replicate n x⟩

/-- The entries that a function gives. -/
def ofFn (f : Fin n → α) : Ledger α n := ⟨.ofFn f⟩

/-- Changes one entry. -/
def set (l : Ledger α n) (v : Fin n) (x : α) : Ledger α n := ⟨l.row.set v x v.isLt⟩

/-- Changes all entries. -/
def map (f : α → β) (l : Ledger α n) : Ledger β n := ⟨l.row.map f⟩

/-- The entries in order. -/
def toList (l : Ledger α n) : List α := l.row.toList

/-- Ledgers with the same entries are the same. -/
theorem ext {l m : Ledger α n} (h : ∀ v : Fin n, l[v] = m[v]) : l = m := by
  obtain ⟨l⟩ := l
  obtain ⟨m⟩ := m
  exact congrArg mk (Vector.ext fun i hi => h ⟨i, hi⟩)

@[simp] theorem getElem_replicate (x : α) (v : Fin n) : (replicate n x)[v] = x :=
  Vector.getElem_replicate v.isLt

@[simp] theorem getElem_ofFn (f : Fin n → α) (v : Fin n) : (ofFn f)[v] = f v :=
  Vector.getElem_ofFn v.isLt

@[simp] theorem getElem_map (f : α → β) (l : Ledger α n) (v : Fin n) : (l.map f)[v] = f l[v] :=
  Vector.getElem_map f v.isLt

/-- Only the entry that is set changes. -/
theorem getElem_set (l : Ledger α n) (v : Fin n) (x : α) (w : Fin n) :
    (l.set v x)[w] = if v = w then x else l[w] := by
  have h : (l.set v x)[w] = if (v : Nat) = w then x else l[w] :=
    Vector.getElem_set v.isLt w.isLt
  simp only [Fin.val_inj] at h
  exact h

theorem length_toList (l : Ledger α n) : l.toList.length = n := Vector.length_toList

/-- The list has the entries in order. -/
theorem toList_eq (l : Ledger α n) : l.toList = (List.finRange n).map fun v => l[v] := by
  refine List.ext_getElem ?_ fun i hi hi' => ?_
  · rw [length_toList, List.length_map, List.length_finRange]
  · rw [List.getElem_map, List.getElem_finRange]
    rfl

theorem getElem?_toList (l : Ledger α n) (v : Fin n) : l.toList[(v : Nat)]? = some l[v] := by
  simp [toList_eq]

theorem mem_toList {l : Ledger α n} {x : α} : x ∈ l.toList ↔ ∃ v : Fin n, l[v] = x := by
  rw [toList_eq, List.mem_map]
  exact exists_congr fun v => and_iff_right (List.mem_finRange v)

/-! ## Gathering -/

/-- Puts an item in front of the items of an entry. -/
def note (l : Ledger (List α) n) (v : Fin n) (x : α) : Ledger (List α) n := l.set v (x :: l[v])

theorem getElem_note (l : Ledger (List α) n) (v : Fin n) (x : α) (w : Fin n) :
    (l.note v x)[w] = if v = w then x :: l[w] else l[w] := by
  rw [note, getElem_set]
  split
  · rename_i h
    rw [h]
  · rfl

/-- Enters what `f` gives for the items of a list under their keys. -/
def gather (key : α → Fin n) (f : α → β) (items : List α) : Ledger (List β) n :=
  items.foldr (fun a l => l.note (key a) (f a)) (replicate n [])

/-- An entry has the items with its key, in the order of the list. -/
theorem getElem_gather (key : α → Fin n) (f : α → β) (items : List α) (v : Fin n) :
    (gather key f items)[v] = (items.filter fun a => key a = v).map f := by
  induction items with
  | nil => exact getElem_replicate [] v
  | cons a items ih =>
    rw [gather, List.foldr_cons, getElem_note, List.filter_cons]
    by_cases h : key a = v
    · rw [if_pos h, if_pos (decide_eq_true h), List.map_cons, ← ih]
      rfl
    · rw [if_neg h, if_neg (by simpa using h), ← ih]
      rfl

end Ledger

end CouplingMap
