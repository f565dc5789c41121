import CouplingMap.Node.Text
import CouplingMap.Proofs.Text.Parts

/-!
# Texts of nodes

* `Node.Readable`: the nodes whose text can be read back.
* `Node.Spells`: the texts that are read, and the nodes that they spell.
* `Node.parse_eq_ok_iff`, `Node.parse_display_iff`, `Node.text_exact`: reading gives what is
  spelled, and what was read can be written and read again.
-/

namespace CouplingMap.Node

open Text

variable {s r : List Char} {is : List UInt32} {n : Node}

/-! ## What is read -/

/-- Nodes with a named register that has no opening bracket and no blanks at its ends. -/
structure Readable (n : Node) : Prop where
  named : n.register ≠ ""
  unbracketed : '[' ∉ n.register.toList
  trimmed : Trimmed n.register.toList

/-- A text spells a node: it is an index, or a register with coordinates in brackets. Blanks around
the register and around each coordinate do not count. -/
inductive Spells : List Char → Node → Prop
  | index {s : List Char} {i : UInt32} (h : IsNumeral s i) : Spells s (ofIndex i)
  | parts {r : List Char} {ps : List (List Char)} {c : Coordinates} (hr : '[' ∉ r)
      (hne : trim r ≠ []) (hps : List.Forall₂ (fun p i => IsNumeral (trim p) i) ps c.toList) :
      Spells (r ++ '[' :: (join [','] ps ++ [']'])) ⟨String.ofList (trim r), c⟩

theorem beforeBracket?_eq_some_iff {inside : List Char} :
    beforeBracket? s = some inside ↔ s = inside ++ [']'] := by
  rw [beforeBracket?, Option.ite_none_right_eq_some, Option.some.injEq]
  constructor
  · rintro ⟨hlast, rfl⟩
    exact (List.dropLast_append_getLast? _ hlast).symm
  · rintro rfl
    exact ⟨List.getLast?_concat, List.dropLast_concat⟩

theorem coordinates?_eq_some_iff : coordinates? s = some is ↔ ∃ ps, s = join [','] ps ∧ ps ≠ [] ∧
    List.Forall₂ (fun p i => IsNumeral (trim p) i) ps is :=
  mapM_pieces_eq_some_iff (by decide) (by decide) (by decide)

/-- A text is cut into a register and coordinates at its first opening bracket. -/
theorem parts?_eq_some_iff : parts? s = some (r, is) ↔ ∃ r' ps,
    s = r' ++ '[' :: (join [','] ps ++ [']']) ∧ '[' ∉ r' ∧ trim r' = r ∧ ps ≠ [] ∧
      List.Forall₂ (fun p i => IsNumeral (trim p) i) ps is := by
  simp only [parts?, Option.bind_eq_bind, Option.bind_eq_some_iff, Prod.exists,
    cut?_eq_some_iff, beforeBracket?_eq_some_iff, coordinates?_eq_some_iff, Option.some.injEq,
    Prod.mk.injEq]
  constructor
  · rintro ⟨r', _, ⟨rfl, hr⟩, _, rfl, is, ⟨ps, rfl, hne, hps⟩, rfl, rfl⟩
    exact ⟨r', ps, rfl, hr, rfl, hne, hps⟩
  · rintro ⟨r', ps, rfl, hr, rfl, hne, hps⟩
    exact ⟨r', _, ⟨rfl, hr⟩, _, rfl, is, ⟨ps, rfl, hne, hps⟩, rfl, rfl⟩

/-- Texts with brackets are not numerals. -/
theorem uint32?_bracketed (a b : List Char) : uint32? (a ++ '[' :: b) = none := by
  refine Option.eq_none_iff_forall_ne_some.2 fun i hi => ?_
  refine (uint32?_eq_some_iff.1 hi).notMem (c := '[') (by decide) (by decide) ?_
  exact List.mem_append_right _ List.mem_cons_self

theorem ofList_ne_empty : String.ofList s ≠ "" ↔ s ≠ [] := by
  rw [Ne, ← String.toList_inj, String.toList_ofList]
  rfl

/-- Reading gives the node that the trimmed text spells, and fails if it spells none. -/
theorem parse_eq_ok_iff (s : String) (n : Node) : parse s = .ok n ↔ Spells (trim s.toList) n := by
  simp only [parse, parseChars]
  generalize trim s.toList = s
  constructor
  · intro h
    split at h
    · rename_i i hi
      exact Except.ok.inj h ▸ .index (uint32?_eq_some_iff.1 hi)
    split at h
    · rename_i r is hparts
      obtain ⟨r', ps, rfl, hr, rfl, -, hps⟩ := parts?_eq_some_iff.1 hparts
      obtain ⟨hnamed, hregister, rfl⟩ := ofParts_eq_ok_iff.1 h
      obtain ⟨register, c⟩ := n
      obtain rfl : register = String.ofList (trim r') := hregister
      exact .parts hr (ofList_ne_empty.1 hnamed) hps
    · contradiction
  · rintro (@⟨s, i, h⟩ | @⟨r, ps, c, hr, hne, hps⟩)
    · rw [uint32?_eq_some_iff.2 h]
    · -- A node has a coordinate, so there is a text between the brackets.
      have hps' : ps ≠ [] := by
        rintro rfl
        cases c <;> contradiction
      have hparts : parts? (r ++ '[' :: (join [','] ps ++ [']'])) = some (trim r, c.toList) :=
        parts?_eq_some_iff.2 ⟨r, ps, rfl, hr, rfl, hps', hps⟩
      rw [uint32?_bracketed, hparts]
      exact ofParts_index (n := ⟨String.ofList (trim r), c⟩) (ofList_ne_empty.2 hne)

/-- Nodes that are spelled can be read back. -/
theorem Spells.readable (h : Spells s n) : n.Readable := by
  cases h with
  | @index s i _ =>
    have hregister : (ofIndex i).register = defaultRegister := rfl
    exact ⟨hregister ▸ by decide, hregister ▸ by decide, hregister ▸ by decide⟩
  | @parts r ps c hr hne hps =>
    refine ⟨ofList_ne_empty.2 hne, ?_, ?_⟩
    · rw [String.toList_ofList]
      exact fun h => hr (mem_of_mem_trim h)
    · rw [String.toList_ofList]
      exact trimmed_trim r

/-! ## What is written -/

theorem join_cons_cons (sep p : List Char) (c : Char) (ps : List (List Char)) :
    join sep ((c :: p) :: ps) = c :: join sep (p :: ps) := by
  cases ps <;> rfl

/-- A space after a comma belongs to the text that follows. -/
theorem join_spaced (p : List Char) (ps : List (List Char)) :
    join [',', ' '] (p :: ps) = join [','] (p :: ps.map (' ' :: ·)) := by
  induction ps generalizing p with
  | nil => rfl
  | cons q ps ih =>
    rw [List.map_cons, join, join, ih, join_cons_cons, List.append_assoc, List.append_assoc]
    rfl

theorem trim_space_digits (k : Nat) : trim (' ' :: digits k) = digits k :=
  trim_eq_iff.2 ⟨[' '], [], by simp, List.forall_mem_singleton.2 rfl, nofun, trimmed_digits k⟩

theorem exists_index (n : Node) : ∃ i is, n.index = i :: is := by
  obtain ⟨register, _ | _ | _⟩ := n
  all_goals exact ⟨_, _, rfl⟩

theorem Readable.toList_ne_nil (h : n.Readable) : n.register.toList ≠ [] := by
  rw [← ofList_ne_empty, String.ofList_toList]
  exact h.named

/-- The text of a node whose register can be read back spells the node. -/
theorem Readable.spells (h : n.Readable) : Spells n.displayChars n := by
  obtain ⟨i, is, hindex⟩ := n.exists_index
  have hps : List.Forall₂ (fun p i => IsNumeral (trim p) i)
      (digits i.toNat :: (is.map fun i => digits i.toNat).map (' ' :: ·)) n.index := by
    rw [hindex, List.map_map]
    refine .cons ((trimmed_digits _).trim_eq.symm ▸ isNumeral_digits i) ?_
    refine List.forall₂_map_left_iff.2 (List.forall₂_same.2 fun j _ => ?_)
    rw [Function.comp_apply, trim_space_digits]
    exact isNumeral_digits j
  have hparts := Spells.parts h.unbracketed (c := n.coordinates) ?_ hps
  · rw [h.trimmed.trim_eq, String.ofList_toList] at hparts
    rw [displayChars, hindex, List.map_cons, join_spaced, List.append_assoc, List.cons_append]
    exact hparts
  · rw [h.trimmed.trim_eq]
    exact h.toList_ne_nil

/-- The text of a node has no blanks at its ends if its register does not start with one. -/
theorem Readable.trimmed_display (h : n.Readable) : Trimmed n.displayChars := by
  obtain ⟨c, register, hregister⟩ := List.exists_cons_of_ne_nil h.toList_ne_nil
  refine ⟨fun b hb => h.trimmed.first b ?_, fun b hb => ?_⟩
  · rw [hregister]
    rw [displayChars, hregister] at hb
    exact hb
  · rw [displayChars, List.getLast?_concat] at hb
    obtain rfl := Option.some.inj hb
    decide

/-- A node is read back from its text just if its register is named, holds no opening bracket and
neither starts nor ends with a blank. -/
theorem parse_display_iff (n : Node) : parse n.display = .ok n ↔ n.Readable := by
  rw [parse_eq_ok_iff, display, String.toList_ofList]
  refine ⟨Spells.readable, fun h => ?_⟩
  rw [h.trimmed_display.trim_eq]
  exact h.spells

/-- Nodes are read back from their texts just if their registers allow it, reading takes the texts
that spell a node and no others, and what was read can be written and read again. -/
theorem text_exact :
    (∀ n : Node, parse n.display = .ok n ↔ n.Readable) ∧
    (∀ s n, parse s = .ok n ↔ Spells (trim s.toList) n) ∧
    ∀ s n, parse s = .ok n → n.Readable ∧ parse n.display = .ok n := by
  refine ⟨parse_display_iff, parse_eq_ok_iff, fun s n h => ?_⟩
  have hn : n.Readable := ((parse_eq_ok_iff s n).1 h).readable
  exact ⟨hn, (parse_display_iff n).2 hn⟩

example : parse " q [ +1, 002] " = .ok ⟨"q", .two 1 2⟩ := by rfl

end CouplingMap.Node
