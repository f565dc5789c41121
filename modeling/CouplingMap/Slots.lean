/-!
# Slots

Things are kept in numbered slots and listed in slot order. A new thing takes the slot that was
freed last, or a new slot at the end.

* `Slots`: the slots with the list of the empty ones.
* `Slots.insert`, `Slots.map`, `Slots.clear`: what they do to a slot is told by `get?_insert`,
  `get?_map` and `get?_clear`, and what they do to the listing by `toList_insert`, `toList_map` and
  `toList_clear`.
* `Slots.having`: the slots of some things, the one with the greatest key first.
-/

namespace CouplingMap

/-- Functions that agree on a list select the same from it. -/
theorem filterMap_congr {α β : Type} {f g : α → Option β} {xs : List α}
    (h : ∀ x ∈ xs, f x = g x) : xs.filterMap f = xs.filterMap g := by
  have hmap := congrArg (List.filterMap id) (List.map_congr_left h)
  rwa [List.filterMap_map, List.filterMap_map] at hmap

/-- A function that selects something for every item of a list. -/
theorem filterMap_eq_of_map {α β : Type} {f : α → Option β} {xs : List α} {ys : List β}
    (h : xs.map f = ys.map some) : xs.filterMap f = ys := by
  have hmap := congrArg (List.filterMap id) h
  rwa [List.filterMap_map, List.filterMap_map, Function.id_comp, Function.id_comp,
    List.filterMap_some] at hmap

/-- Numbered slots. -/
@[ext]
structure Slots (α : Type) where
  cells : List (Option α)
  /-- The empty slots, the one freed last first. -/
  freed : List Nat
  mem_freed : ∀ {i : Nat}, i ∈ freed ↔ cells[i]? = some none
  freed_nodup : freed.Nodup

namespace Slots

variable {α : Type} {s : Slots α} {x : α} {i : Nat}

/-- No slots. -/
def empty : Slots α := ⟨[], [], by simp, List.nodup_nil⟩

/-- What is in a slot. -/
def get? (s : Slots α) (i : Nat) : Option α := s.cells[i]?.join

/-- The things in slot order. -/
def toList (s : Slots α) : List α := s.cells.filterMap id

theorem get?_eq_some : s.get? i = some x ↔ s.cells[i]? = some (some x) := Option.join_eq_some_iff

@[simp] theorem get?_empty : (empty : Slots α).get? i = none := rfl

/-- The things listed are those in the slots. -/
theorem mem_toList : x ∈ s.toList ↔ ∃ i, s.get? i = some x := by
  rw [toList, List.mem_filterMap]
  simp only [id_eq, exists_eq_right, get?_eq_some]
  exact List.mem_iff_getElem?

/-- Things in different slots are related in slot order. -/
theorem pairwise_toList {R : α → α → Prop} (h : ∀ {i j : Nat} {x y : α}, i < j →
    s.get? i = some x → s.get? j = some y → R x y) : s.toList.Pairwise R := by
  rw [toList, List.pairwise_filterMap, List.pairwise_iff_getElem]
  intro i j hi hj hij x hx y hy
  refine h hij (get?_eq_some.2 ?_) (get?_eq_some.2 ?_)
  · rw [List.getElem?_eq_getElem hi]
    exact congrArg some hx
  · rw [List.getElem?_eq_getElem hj]
    exact congrArg some hy

/-! ## Entering -/

/-- The slot that the next thing takes. -/
def next (s : Slots α) : Nat := s.freed.headD s.cells.length

theorem get?_next (s : Slots α) : s.get? s.next = none := by
  have hfreed (k : Nat) (hk : k ∈ s.freed) : s.get? k = none := by
    rw [get?, s.mem_freed.1 hk]
    rfl
  unfold next
  cases hf : s.freed with
  | nil =>
    rw [List.headD_nil, get?, List.getElem?_eq_none (Nat.le_refl _)]
    rfl
  | cons k rest => exact hfreed k (hf ▸ List.mem_cons_self)

/-- Puts a thing into the next slot. -/
def insert (s : Slots α) (x : α) : Slots α where
  cells := if s.freed = [] then s.cells ++ [some x] else s.cells.set s.next (some x)
  freed := s.freed.tail
  mem_freed := by
    intro i
    have hi := s.mem_freed (i := i)
    have hn := s.freed_nodup
    cases hf : s.freed with
    | nil =>
      rw [hf] at hi
      rw [if_pos rfl, List.tail_nil, hi, List.getElem?_append]
      split
      · rfl
      · rename_i h
        rw [List.getElem?_eq_none (by omega), List.getElem?_singleton]
        split <;> simp
    | cons k rest =>
      rw [hf] at hi hn
      rw [if_neg (List.cons_ne_nil k rest), List.tail_cons, next, hf, List.headD_cons,
        List.getElem?_set]
      split
      · rename_i h
        subst h
        simp [(List.nodup_cons.1 hn).1]
      · rename_i h
        rw [← hi, List.mem_cons]
        exact ⟨Or.inr, fun h' => h'.resolve_left (Ne.symm h)⟩
  freed_nodup := s.freed_nodup.sublist (List.tail_sublist _)

theorem cells_insert_of_nil (h : s.freed = []) (x : α) :
    (s.insert x).cells = s.cells ++ [some x] := if_pos h

theorem cells_insert_of_cons {k : Nat} {rest : List Nat} (h : s.freed = k :: rest) (x : α) :
    (s.insert x).cells = s.cells.set k (some x) := by
  have hne : s.freed ≠ [] := h ▸ List.cons_ne_nil k rest
  have hnext : s.next = k := by rw [next, h, List.headD_cons]
  exact (if_neg hne).trans (hnext ▸ rfl)

/-- A new thing is in the next slot, and nothing else changes. -/
theorem get?_insert (s : Slots α) (x : α) (i : Nat) :
    (s.insert x).get? i = if i = s.next then some x else s.get? i := by
  rw [get?, get?, next]
  cases hf : s.freed with
  | nil =>
    rw [cells_insert_of_nil hf, List.headD_nil, List.getElem?_append]
    by_cases hi : i < s.cells.length
    · rw [if_pos hi, if_neg (Nat.ne_of_lt hi)]
    · rw [if_neg hi, List.getElem?_eq_none (by omega : s.cells.length ≤ i), List.getElem?_singleton]
      by_cases h : i = s.cells.length
      · rw [if_pos (by omega), if_pos h]
        rfl
      · rw [if_neg (by omega), if_neg h]
  | cons k rest =>
    have hk : s.cells[k]? = some none := s.mem_freed.1 (hf ▸ List.mem_cons_self)
    obtain ⟨hlt, -⟩ := List.getElem?_eq_some_iff.1 hk
    rw [cells_insert_of_cons hf, List.headD_cons, List.getElem?_set]
    by_cases h : i = k
    · subst h
      rw [if_pos rfl, if_pos hlt, if_pos rfl]
      rfl
    · rw [if_neg (Ne.symm h), if_neg h]

/-- A new thing is listed last if no slot is free. -/
theorem toList_insert_of_nil (h : s.freed = []) (x : α) :
    (s.insert x).toList = s.toList ++ [x] := by
  rw [toList, cells_insert_of_nil h, List.filterMap_append]
  rfl

/-- A new thing is listed between those of the slots before and after it. -/
theorem toList_insert (s : Slots α) (x : α) :
    ∃ before after : List α, s.toList = before ++ after ∧
      (s.insert x).toList = before ++ x :: after := by
  cases hf : s.freed with
  | nil => exact ⟨s.toList, [], by rw [List.append_nil], toList_insert_of_nil hf x⟩
  | cons k rest =>
    obtain ⟨hlt, hnone⟩ := List.getElem?_eq_some_iff.1 (s.mem_freed.1 (hf ▸ List.mem_cons_self))
    refine ⟨(s.cells.take k).filterMap id, (s.cells.drop (k + 1)).filterMap id, ?_, ?_⟩
    · rw [toList]
      conv => lhs; rw [← List.take_append_drop k s.cells, List.drop_eq_getElem_cons hlt, hnone]
      rw [List.filterMap_append]
      rfl
    · rw [toList, cells_insert_of_cons hf, List.set_eq_take_append_cons_drop, if_pos hlt,
        List.filterMap_append]
      rfl

/-! ## Changing -/

/-- Changes the things without moving them. -/
def map (s : Slots α) (f : α → α) : Slots α where
  cells := s.cells.map (Option.map f)
  freed := s.freed
  mem_freed := by
    intro i
    rw [s.mem_freed, List.getElem?_map]
    cases s.cells[i]? with
    | none => simp
    | some c => cases c <;> simp
  freed_nodup := s.freed_nodup

theorem get?_map (s : Slots α) (f : α → α) (i : Nat) : (s.map f).get? i = (s.get? i).map f := by
  rw [get?, map, List.getElem?_map, get?]
  cases s.cells[i]? with
  | none => rfl
  | some c => rfl

theorem toList_map (s : Slots α) (f : α → α) : (s.map f).toList = s.toList.map f := by
  rw [toList, map, List.filterMap_map, toList, List.map_filterMap]
  rfl

/-! ## Freeing -/

/-- The slots of the things that satisfy `p`, the one with the greatest key first. -/
def having (s : Slots α) (p : α → Bool) (key : α → Nat) : List Nat :=
  let cells := s.cells.toArray
  let keyAt (i : Nat) : Nat := cells[i]?.join.elim 0 key
  ((List.range cells.size).filter fun i => cells[i]?.join.any p).mergeSort
    fun i j => keyAt j ≤ keyAt i

theorem mem_having {p : α → Bool} {key : α → Nat} :
    i ∈ s.having p key ↔ ∃ x, s.get? i = some x ∧ p x = true := by
  simp only [having, (List.mergeSort_perm _ _).mem_iff, List.mem_filter, List.mem_range,
    Option.any_eq_true, List.size_toArray, List.getElem?_toArray, get?]
  refine ⟨And.right, fun h => ⟨?_, h⟩⟩
  obtain ⟨x, hx, -⟩ := h
  exact (List.getElem?_eq_some_iff.1 (Option.join_eq_some_iff.1 hx)).1

theorem having_nodup (s : Slots α) (p : α → Bool) (key : α → Nat) : (s.having p key).Nodup := by
  simp only [having, (List.mergeSort_perm _ _).nodup_iff]
  exact List.Pairwise.filter _ List.nodup_range

/-- Takes out the things that satisfy `p`; their slots are freed in the given order. -/
def clear (s : Slots α) (p : α → Bool) (order : List Nat)
    (ho : ∀ i, i ∈ order ↔ ∃ x, s.get? i = some x ∧ p x = true) (hn : order.Nodup) : Slots α where
  cells := s.cells.map fun c => c.filter fun x => !p x
  freed := order.reverse ++ s.freed
  mem_freed := by
    intro i
    simp only [List.mem_append, List.mem_reverse, ho, s.mem_freed, List.getElem?_map, get?_eq_some,
      Option.map_eq_some_iff]
    constructor
    · rintro (⟨x, hx, hp⟩ | h)
      · exact ⟨_, hx, by simp [Option.filter, hp]⟩
      · exact ⟨_, h, rfl⟩
    · rintro ⟨c, hc, hf⟩
      cases c with
      | none => exact Or.inr hc
      | some x =>
        refine Or.inl ⟨x, hc, ?_⟩
        by_cases hp : p x = true
        · exact hp
        · simp [Option.filter, hp] at hf
  freed_nodup := by
    refine List.nodup_append.2 ⟨(List.reverse_perm _).nodup_iff.2 hn, s.freed_nodup, ?_⟩
    rintro i hi j hj rfl
    obtain ⟨x, hx, -⟩ := (ho i).1 (List.mem_reverse.1 hi)
    have := (get?_eq_some.1 hx).symm.trans (s.mem_freed.1 hj)
    simp at this

section Clear

variable {p : α → Bool} {order : List Nat}
  (ho : ∀ i, i ∈ order ↔ ∃ x, s.get? i = some x ∧ p x = true) (hn : order.Nodup)

/-- The things that are left stay in their slots. -/
theorem get?_clear (i : Nat) :
    (s.clear p order ho hn).get? i = (s.get? i).filter fun x => !p x := by
  rw [get?, clear, List.getElem?_map, get?]
  cases s.cells[i]? with
  | none => rfl
  | some c => rfl

/-- The things that are left stay in their order. -/
theorem toList_clear : (s.clear p order ho hn).toList = s.toList.filter fun x => !p x := by
  rw [toList, clear, List.filterMap_map, toList, List.filter_filterMap]
  rfl

end Clear

/-! ## Slots in a row -/

/-- Things in the first slots, in order. -/
def ofList (xs : List α) : Slots α where
  cells := xs.map some
  freed := []
  mem_freed := by simp
  freed_nodup := .nil

@[simp] theorem get?_ofList (xs : List α) (i : Nat) : (ofList xs).get? i = xs[i]? := by
  rw [get?, ofList, List.getElem?_map]
  cases xs[i]? with
  | none => rfl
  | some c => rfl

@[simp] theorem toList_ofList (xs : List α) : (ofList xs).toList = xs := by
  rw [toList, ofList, List.filterMap_map]
  exact List.filterMap_some

/-- One more thing takes the slot after those in a row. -/
theorem insert_ofList (xs : List α) (x : α) : (ofList xs).insert x = ofList (xs ++ [x]) := by
  refine Slots.ext ?_ rfl
  rw [cells_insert_of_nil rfl]
  show xs.map some ++ [some x] = (xs ++ [x]).map some
  rw [List.map_append]
  rfl

theorem next_ofList (xs : List α) : (ofList xs).next = xs.length := List.length_map some

end Slots

end CouplingMap
