import CouplingMap.Yaml.Decoder

/-!
# Nodes as lists of events

A node is an alias, a scalar, or what lies between an opening and its closing event. Nodes within a
node are whole, so a node can be passed over by counting what is open.

* `IsNode`: the events of one node.
* `skipFrom_node`: passing over a node leaves what follows it.
* `IsNode.exists_node`: from any event of a node on that does not close anything, there is a node.
* `lastFrom_eq_some_iff`: the last item of some kind.
-/

namespace CouplingMap.Yaml

/-- The events of some entries, each with its key and its value. -/
def pieces (entries : List (Events × Events)) : Events := entries.flatMap fun m => m.1 ++ m.2

/-- The events of one node. -/
inductive IsNode : Events → Prop where
  | aliasOf {e : Placed Event} {a : Nat} (h : e.value = .aliasOf a) : IsNode [e]
  | scalar {e : Placed Event} {anchor : Option Nat} {s : Scalar} (h : e.value = .scalar anchor s) :
      IsNode [e]
  | sequence {first last : Placed Event} {anchor : Option Nat} {items : List Events}
      (hfirst : first.value = .openSequence anchor) (hitems : ∀ item ∈ items, IsNode item)
      (hlast : last.value = .closeSequence) : IsNode (first :: (items.flatten ++ [last]))
  | mapping {first last : Placed Event} {anchor : Option Nat} {entries : List (Events × Events)}
      (hfirst : first.value = .openMapping anchor) (hkeys : ∀ m ∈ entries, IsNode m.1)
      (hvalues : ∀ m ∈ entries, IsNode m.2) (hlast : last.value = .closeMapping) :
      IsNode (first :: (pieces entries ++ [last]))

/-- Whether an event closes a collection. -/
def Event.closes (e : Event) : Prop := e = .closeSequence ∨ e = .closeMapping

variable {es rest : Events} {e : Placed Event} {d : Document} {depth : Nat}

/-- A node starts with an event that does not close anything. -/
theorem IsNode.exists_cons (h : IsNode es) : ∃ e inner, es = e :: inner ∧ ¬ e.value.closes := by
  cases h with
  | aliasOf h | scalar h => exact ⟨_, [], rfl, by simp [Event.closes, h]⟩
  | sequence h | mapping h => exact ⟨_, _, rfl, by simp [Event.closes, h]⟩

theorem flatten_pieces (entries : List (Events × Events)) :
    pieces entries = (entries.flatMap fun m => [m.1, m.2]).flatten := by
  induction entries with
  | nil => rfl
  | cons m entries ih => simp [pieces, ← ih]

/-! ## Passing over nodes -/

/-- Within a collection, whole nodes are passed over. -/
theorem skipFrom_flatten {items : List Events}
    (h : ∀ item ∈ items, ∀ depth rest, Decoder.skipFrom d (depth + 1) (item ++ rest) =
      Decoder.skipFrom d (depth + 1) rest) :
    Decoder.skipFrom d (depth + 1) (items.flatten ++ rest) =
      Decoder.skipFrom d (depth + 1) rest := by
  induction items with
  | nil => rfl
  | cons item items ih =>
    rw [List.flatten_cons, List.append_assoc, h item List.mem_cons_self]
    exact ih fun item hitem => h item (List.mem_cons_of_mem _ hitem)

theorem forall_mem_pieces {P : Events → Prop} {entries : List (Events × Events)}
    (hkeys : ∀ m ∈ entries, P m.1) (hvalues : ∀ m ∈ entries, P m.2) :
    ∀ item ∈ entries.flatMap fun m => [m.1, m.2], P item := by
  intro item hitem
  obtain ⟨m, hm, hitem⟩ := List.mem_flatMap.1 hitem
  obtain rfl | rfl : item = m.1 ∨ item = m.2 := by simpa using hitem
  · exact hkeys m hm
  · exact hvalues m hm

theorem IsNode.skipFrom_succ (h : IsNode es) : ∀ depth rest,
    Decoder.skipFrom d (depth + 1) (es ++ rest) = Decoder.skipFrom d (depth + 1) rest := by
  induction h with
  | aliasOf h | scalar h =>
    intro depth rest
    simp [Decoder.skipFrom, h, Event.depthAfter]
  | sequence hfirst hitems hlast ih =>
    intro depth rest
    simp [Decoder.skipFrom, hfirst, hlast, Event.depthAfter, skipFrom_flatten ih]
  | mapping hfirst hkeys hvalues hlast ihkeys ihvalues =>
    intro depth rest
    simp [Decoder.skipFrom, hfirst, hlast, Event.depthAfter, flatten_pieces,
      skipFrom_flatten (forall_mem_pieces ihkeys ihvalues)]

/-- Passing over a node leaves what follows it. -/
theorem IsNode.skipFrom_zero (h : IsNode es) (d : Document) (rest : Events) :
    Decoder.skipFrom d 0 (es ++ rest) = .ok rest := by
  have hpass {items : List Events} (hitems : ∀ item ∈ items, IsNode item) (rest : Events) :
      Decoder.skipFrom d 1 (items.flatten ++ rest) = Decoder.skipFrom d 1 rest :=
    skipFrom_flatten fun item hitem => (hitems item hitem).skipFrom_succ
  cases h with
  | aliasOf h | scalar h => simp [Decoder.skipFrom, h, Event.depthAfter]
  | sequence hfirst hitems hlast =>
    simp [Decoder.skipFrom, hfirst, hlast, Event.depthAfter, hpass hitems]
  | mapping hfirst hkeys hvalues hlast =>
    simp [Decoder.skipFrom, hfirst, hlast, Event.depthAfter, flatten_pieces,
      hpass (forall_mem_pieces hkeys hvalues)]

/-! ## Nodes within nodes -/

/-- An item of some lists in a row is in one of them, or in what follows. -/
theorem flatten_append_eq {α : Type} {items : List (List α)} {tail before after : List α} {a : α}
    (h : items.flatten ++ tail = before ++ a :: after) :
    (∃ item ∈ items, ∃ front back rest, item = front ++ a :: back ∧ after = back ++ rest) ∨
      ∃ front, tail = front ++ a :: after := by
  induction items generalizing before with
  | nil => exact .inr ⟨before, h⟩
  | cons item items ih =>
    rw [List.flatten_cons, List.append_assoc] at h
    obtain ⟨mid, hbefore, hrest⟩ | ⟨mid, hitem, hafter⟩ := List.append_eq_append_iff.1 h
    · refine (ih hrest).imp_left ?_
      rintro ⟨i, hi, hmem⟩
      exact ⟨i, List.mem_cons_of_mem _ hi, hmem⟩
    · cases mid with
      | nil =>
        have hnil : items.flatten ++ tail = [] ++ a :: after := hafter.symm
        refine (ih hnil).imp_left ?_
        rintro ⟨i, hi, hmem⟩
        exact ⟨i, List.mem_cons_of_mem _ hi, hmem⟩
      | cons b back =>
        obtain ⟨rfl, hback⟩ := List.cons.inj hafter
        exact .inl ⟨item, List.mem_cons_self, before, back, _, hitem, hback⟩

/-- From an event of a collection on there is a node, if there is one from its place in an item on. -/
theorem exists_node_of_items {first last : Placed Event} {items : List Events}
    {before after : Events} (hnode : IsNode (first :: (items.flatten ++ [last])))
    (hlast : last.value.closes) (he : ¬ e.value.closes)
    (hitems : ∀ item ∈ items, ∀ front back, item = front ++ e :: back →
      ∃ inner rest, back = inner ++ rest ∧ IsNode (e :: inner))
    (hes : first :: (items.flatten ++ [last]) = before ++ e :: after) :
    ∃ inner rest, after = inner ++ rest ∧ IsNode (e :: inner) := by
  cases before with
  | nil =>
    obtain ⟨rfl, rfl⟩ := List.cons.inj hes
    exact ⟨_, [], (List.append_nil _).symm, hnode⟩
  | cons b before =>
    obtain ⟨item, hitem, front, back, rest, hfront, rfl⟩ | ⟨front, hfront⟩ :=
      flatten_append_eq (List.cons.inj hes).2
    · obtain ⟨inner, more, rfl, hinner⟩ := hitems item hitem front back hfront
      exact ⟨inner, more ++ rest, by simp, hinner⟩
    · have hmem : e ∈ [last] := hfront ▸ by simp
      exact absurd (List.mem_singleton.1 hmem ▸ hlast) he

theorem eq_of_singleton {α : Type} {a b : α} {before after : List α}
    (h : [a] = before ++ b :: after) : a = b ∧ after = [] := by
  cases before <;> simp_all

/-- From any event of a node on that does not close anything, there is a node. -/
theorem IsNode.exists_node (h : IsNode es) (he : ¬ e.value.closes) : ∀ before after,
    es = before ++ e :: after → ∃ inner rest, after = inner ++ rest ∧ IsNode (e :: inner) := by
  induction h with
  | aliasOf h =>
    intro before after hes
    obtain ⟨rfl, rfl⟩ := eq_of_singleton hes
    exact ⟨[], [], rfl, .aliasOf h⟩
  | scalar h =>
    intro before after hes
    obtain ⟨rfl, rfl⟩ := eq_of_singleton hes
    exact ⟨[], [], rfl, .scalar h⟩
  | sequence hfirst hitems hlast ih =>
    intro before after hes
    exact exists_node_of_items (.sequence hfirst hitems hlast) (.inl hlast) he ih hes
  | mapping hfirst hkeys hvalues hlast ihkeys ihvalues =>
    intro before after hes
    have hnode := IsNode.mapping hfirst hkeys hvalues hlast
    rw [flatten_pieces] at hes hnode
    exact exists_node_of_items hnode (.inr hlast) he (forall_mem_pieces ihkeys ihvalues) hes

/-! ## What an alias stands for -/

theorem lastFrom_eq_none_iff {α : Type} {p : α → Bool} {as : List α} :
    lastFrom p as = none ↔ ∀ a ∈ as, p a = false := by
  induction as with
  | nil => simp [lastFrom]
  | cons a as ih => simp [lastFrom, ih, and_comm]

/-- The last part of a list that starts with an item of some kind is what starts with the last item
of this kind. -/
theorem lastFrom_eq_some_iff {α : Type} {p : α → Bool} {as bs : List α} :
    lastFrom p as = some bs ↔ ∃ before b after, as = before ++ b :: after ∧ bs = b :: after ∧
      p b = true ∧ ∀ a ∈ after, p a = false := by
  constructor
  · intro h
    induction as with
    | nil => contradiction
    | cons a as ih =>
      obtain h | ⟨hnone, h⟩ := Option.or_eq_some_iff.1 h
      · obtain ⟨before, b, after, rfl, hb⟩ := ih h
        exact ⟨a :: before, b, after, rfl, hb⟩
      · have ha : p a = true ∧ a :: as = bs := by simpa using h
        exact ⟨[], a, as, rfl, ha.2.symm, ha.1, lastFrom_eq_none_iff.1 hnone⟩
  · rintro ⟨before, b, after, rfl, rfl, hb, hafter⟩
    induction before with
    | nil => simp [lastFrom, lastFrom_eq_none_iff.2 hafter, hb]
    | cons a before ih => simp [lastFrom, ih]

end CouplingMap.Yaml
