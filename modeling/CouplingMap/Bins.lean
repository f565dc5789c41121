import CouplingMap.Ledger

/-!
# Bins

A list is spread over bins by a key of its items, so that an item is looked for among the items of
one bin only. Bins keep the order of the list.

* `Bins.spread`: the bins of a list. `row_spread` says that a bin is the list, filtered.
* `Bins.holds`, `Bins.find?`: searches in one bin answer what a search in the list answers.
* `Bins.decideNodup`: whether no item of a list is repeated, bin by bin.
-/

namespace CouplingMap

/-- The items of a list in numbered bins. -/
structure Bins (α : Type) where
  /-- The number of the last bin. -/
  last : Nat
  rows : Ledger (List α) (last + 1)

namespace Bins

variable {α : Type}

/-- The bin of a key. -/
def binOf (last key : Nat) : Fin (last + 1) := Fin.ofNat (last + 1) key

/-- Spreads a list over rows. -/
def rowsOf (key : α → Nat) (last : Nat) (items : List α) : Ledger (List α) (last + 1) :=
  Ledger.gather (fun a => binOf last (key a)) id items

/-- A row has the items whose key belongs to it, in the order of the list. -/
theorem getElem_rowsOf (key : α → Nat) {last : Nat} (items : List α) (i : Fin (last + 1)) :
    (rowsOf key last items)[i] = items.filter fun a => binOf last (key a) = i := by
  rw [rowsOf, Ledger.getElem_gather, List.map_id]

/-- Spreads a list over as many bins as it has items, and one more. -/
def spread (key : α → Nat) (items : List α) : Bins α :=
  ⟨items.length, rowsOf key items.length items⟩

/-- The items in the bin of a key. -/
def row (bins : Bins α) (key : Nat) : List α := bins.rows[binOf bins.last key]

theorem row_spread (key : α → Nat) (items : List α) (k : Nat) :
    (spread key items).row k =
      items.filter fun a => binOf items.length (key a) = binOf items.length k :=
  getElem_rowsOf ..

/-- The first item with a property in the bin of a key. -/
def find? (bins : Bins α) (key : Nat) (p : α → Bool) : Option α := (bins.row key).find? p

/-- Only items with the key need to be looked at if all items with the property have it. -/
theorem find?_spread {key : α → Nat} {items : List α} {k : Nat} {p : α → Bool}
    (h : ∀ a, p a = true → key a = k) : (spread key items).find? k p = items.find? p := by
  rw [find?, row_spread, List.find?_filter]
  congr 1
  funext a
  by_cases hp : p a = true
  · simp [hp, h a hp]
  · simp [hp]

/-- Whether an item is in the bin of its key. -/
def holds [DecidableEq α] (key : α → Nat) (bins : Bins α) (a : α) : Bool :=
  (bins.row (key a)).contains a

/-- The bins of a list hold the items of the list. -/
theorem holds_spread [DecidableEq α] {key : α → Nat} {items : List α} {a : α} :
    (spread key items).holds key a = true ↔ a ∈ items := by
  rw [holds, row_spread]
  simp

/-- No item of a list is repeated just when none is repeated in a row. -/
theorem nodup_iff_rowsOf (key : α → Nat) (last : Nat) (items : List α) :
    items.Nodup ↔ ∀ row ∈ (rowsOf key last items).toList, row.Nodup := by
  constructor
  · intro h row hr
    obtain ⟨i, rfl⟩ := Ledger.mem_toList.1 hr
    rw [getElem_rowsOf]
    exact h.filter _
  · intro h
    refine List.pairwise_iff_forall_sublist.2 fun {a b} hs => ?_
    rintro rfl
    have hn := h _ (Ledger.mem_toList.2 ⟨binOf last (key a), rfl⟩)
    rw [getElem_rowsOf] at hn
    have hf := hs.filter fun x => decide (binOf last (key x) = binOf last (key a))
    simp only [List.filter_cons, decide_true, if_true, List.filter_nil] at hf
    simpa using hn.sublist hf

/-- Decides row by row whether no item of a list is repeated. -/
def decideNodup [DecidableEq α] (key : α → Nat) (items : List α) : Decidable items.Nodup :=
  decidable_of_iff (∀ row ∈ (spread key items).rows.toList, row.Nodup)
    (nodup_iff_rowsOf key items.length items).symm

end Bins

end CouplingMap
