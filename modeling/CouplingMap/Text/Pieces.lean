/-!
# Cutting a text at a separator

* `pieces`: cuts at every separator; there is one piece more than there are separators.
* `cut?`: cuts once, at the first separator.
* `join`: puts a separator between neighbouring texts.
-/

namespace CouplingMap.Text

/-- The parts of a text between separators, empty parts included. -/
def pieces (sep : Char) : List Char → List (List Char)
  | [] => [[]]
  | c :: s =>
    if c = sep then [] :: pieces sep s
    else match pieces sep s with
      | [] => [[c]]
      | p :: ps => (c :: p) :: ps

/-- The parts before and after the first separator. -/
def cut? (sep : Char) : List Char → Option (List Char × List Char)
  | [] => none
  | c :: s =>
    if c = sep then some ([], s)
    else (cut? sep s).map fun p => (c :: p.1, p.2)

/-- The texts in order, with the separator between neighbours. -/
def join (sep : List Char) : List (List Char) → List Char
  | [] => []
  | [s] => s
  | s :: t :: rest => s ++ sep ++ join sep (t :: rest)

theorem pieces_ne_nil (sep : Char) (s : List Char) : pieces sep s ≠ [] := by
  cases s with
  | nil => simp [pieces]
  | cons c s =>
    simp only [pieces]
    split
    · simp
    · split <;> simp

/-- Joining the pieces with the separator gives the text back. -/
theorem join_pieces (sep : Char) (s : List Char) : join [sep] (pieces sep s) = s := by
  induction s with
  | nil => rfl
  | cons c s ih =>
    simp only [pieces]
    split
    · rename_i h
      subst h
      cases hp : pieces c s with
      | nil => exact absurd hp (pieces_ne_nil c s)
      | cons p ps => simpa [join, hp] using ih
    · cases hp : pieces sep s with
      | nil => exact absurd hp (pieces_ne_nil sep s)
      | cons p ps =>
        rw [hp] at ih
        cases ps <;> simp_all [join]

/-- A cut loses nothing but the separator, and the first part holds no separator. -/
theorem cut?_eq_some {sep : Char} {s a b : List Char} (h : cut? sep s = some (a, b)) :
    s = a ++ sep :: b ∧ sep ∉ a := by
  induction s generalizing a with
  | nil => simp [cut?] at h
  | cons c s ih =>
    simp only [cut?] at h
    split at h
    · simp_all
    · obtain ⟨p, hp, he⟩ := Option.map_eq_some_iff.1 h
      obtain ⟨rfl, rfl⟩ := Prod.mk.inj he
      obtain ⟨rfl, hn⟩ := ih hp
      exact ⟨rfl, by simp_all [eq_comm]⟩

end CouplingMap.Text
