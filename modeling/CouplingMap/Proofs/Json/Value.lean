import CouplingMap.Json.Value
import CouplingMap.Proofs.Json.Numeral
import Mathlib.Data.List.DropRight

/-!
# How values are read

* `ParsesItems`, `ParsesMembers`: the items of an open list and the members of an open object, one
  after another. The bound of a walk matters only for the number of rounds.
* `Parses`: how a value is read by its first character. `value_parses` says that every value is read
  so.
* `Distinct`: values in which no object repeats a member name.
-/

namespace CouplingMap.Json

variable {depth : Nat} {first : Bool} {bound cs cs₁ rest : List Char} {v : Json} {vs xs : List Json}
  {ms ns : List (String × Json)}

/-! ## Blanks -/

theorem length_skipSpace_le (cs : List Char) : (skipSpace cs).length ≤ cs.length :=
  (List.dropWhile_sublist _).length_le

@[simp] theorem skipSpace_skipSpace (cs : List Char) : skipSpace (skipSpace cs) = skipSpace cs :=
  List.dropWhile_idempotent _ cs

/-- Blanks in front of a value do not matter. -/
theorem value_skipSpace (depth : Nat) (cs : List Char) :
    value depth (skipSpace cs) = value depth cs := by
  rw [value, value, skipSpace_skipSpace]

/-! ## Separators -/

/-- An open list ends with its closing bracket. -/
theorem nextItem_eq_close :
    nextItem first cs = .ok (.close rest) ↔ skipSpace cs = ']' :: rest := by
  refine ⟨fun h => ?_, fun h => by rw [nextItem, h]; rfl⟩
  unfold nextItem at h
  split at h
  · contradiction
  rename_i c tail hcs
  split at h
  · rename_i hc
    obtain ⟨⟩ := h
    rw [hcs, hc]
  · repeat' split at h
    all_goals cases h

/-- An item stands at the front of an open list, or after a comma. -/
theorem skipSpace_of_nextItem (h : nextItem first cs = .ok (.more cs₁)) :
    ∃ c tail, skipSpace cs = c :: tail ∧ c ≠ ']' ∧ (first || c = ',') = true ∧
      skipSpace (if first then c :: tail else tail) = cs₁ := by
  unfold nextItem at h
  split at h
  · contradiction
  rename_i c tail hcs
  refine ⟨c, tail, hcs, ?_⟩
  split at h
  · cases h
  rename_i hclose
  split at h
  · rename_i hfirst
    obtain ⟨⟩ := h
    refine ⟨hclose, by rw [hfirst, Bool.true_or], ?_⟩
    rw [if_pos hfirst, ← hcs, skipSpace_skipSpace]
  split at h
  · rename_i hfirst hcomma
    refine ⟨hclose, by rw [hcomma, decide_eq_true rfl, Bool.or_true], ?_⟩
    rw [if_neg hfirst]
    split at h
    · contradiction
    rename_i d tail htail
    split at h
    · contradiction
    · obtain ⟨⟩ := h
      exact htail
  · contradiction

theorem closeList_eq_ok : closeList cs = .ok ((), rest) ↔ skipSpace cs = ']' :: rest := by
  refine ⟨fun h => ?_, fun h => by rw [closeList, h]; rfl⟩
  unfold closeList at h
  split at h
  · contradiction
  rename_i c tail hcs
  split at h
  · rename_i hc
    obtain ⟨⟩ := h
    rw [hcs, hc]
  · contradiction

/-- An open object ends with its closing bracket. -/
theorem nextMember_eq_close :
    nextMember first cs = .ok (.close rest) ↔ skipSpace cs = '}' :: rest := by
  refine ⟨fun h => ?_, fun h => by rw [nextMember, h]; rfl⟩
  unfold nextMember at h
  split at h
  · contradiction
  rename_i c tail hcs
  split at h
  · rename_i hc
    obtain ⟨⟩ := h
    rw [hcs, hc]
  · repeat' split at h
    all_goals cases h

/-- A member stands at the front of an open object, or after a comma. -/
theorem skipSpace_of_nextMember (h : nextMember first cs = .ok (.more cs₁)) :
    ∃ c tail, skipSpace cs = c :: tail ∧ c ≠ '}' ∧ (first || c = ',') = true ∧
      skipSpace (if first then c :: tail else tail) = '"' :: cs₁ := by
  unfold nextMember at h
  split at h
  · contradiction
  rename_i c tail hcs
  refine ⟨c, tail, hcs, ?_⟩
  split at h
  · cases h
  rename_i hclose
  split at h
  · rename_i hfirst
    split at h
    · rename_i hquote
      obtain ⟨⟩ := h
      refine ⟨hclose, by rw [hfirst, Bool.true_or], ?_⟩
      rw [if_pos hfirst, ← hcs, skipSpace_skipSpace, hcs, hquote]
    · contradiction
  split at h
  · rename_i hfirst hcomma
    refine ⟨hclose, by rw [hcomma, decide_eq_true rfl, Bool.or_true], ?_⟩
    rw [if_neg hfirst]
    split at h
    · contradiction
    rename_i d tail htail
    split at h
    · rename_i hquote
      obtain ⟨⟩ := h
      rw [htail, hquote]
    · contradiction
  · contradiction

/-! ## Items and members -/

/-- How the items of an open list are read up to its end, and what is left. -/
inductive ParsesItems (depth : Nat) : Bool → List Char → List Json → List Char → Prop where
  | close {first : Bool} {cs rest : List Char} (h : nextItem first cs = .ok (.close rest)) :
    ParsesItems depth first cs [] rest
  | item {first : Bool} {cs cs₁ cs₂ rest : List Char} {v : Json} {vs : List Json}
    (h : nextItem first cs = .ok (.more cs₁)) (hv : value depth cs₁ = .ok (v, cs₂))
    (hvs : ParsesItems depth false cs₂ vs rest) : ParsesItems depth first cs (v :: vs) rest

/-- How the members of an open object are read up to its end, and what is left. -/
inductive ParsesMembers (depth : Nat) :
    Bool → List Char → List (String × Json) → List Char → Prop where
  | close {first : Bool} {cs rest : List Char} (h : nextMember first cs = .ok (.close rest)) :
    ParsesMembers depth first cs [] rest
  | member {first : Bool} {cs cs₁ cs₂ cs₃ cs₄ rest : List Char} {k : String} {v : Json}
    {ms : List (String × Json)} (h : nextMember first cs = .ok (.more cs₁))
    (hk : Quoted.read cs₁ = .ok (k, cs₂)) (hcolon : colon cs₂ = .ok ((), cs₃))
    (hv : value depth cs₃ = .ok (v, cs₄)) (hms : ParsesMembers depth false cs₄ ms rest) :
    ParsesMembers depth first cs ((k, v) :: ms) rest

/-- A walk over a list reads its items, one in each round but the last. -/
theorem itemsFrom_parses (h : itemsFrom (value depth) bound first xs cs = .ok (vs, rest)) :
    ∃ ws, vs = xs.reverse ++ ws ∧ ws.length < bound.length ∧
      ParsesItems depth first cs ws rest := by
  induction bound generalizing first xs cs with
  | nil => contradiction
  | cons b bound ih =>
    rw [itemsFrom, bind_eq_ok] at h
    obtain ⟨next, hnext, h⟩ := h
    cases next with
    | close r =>
      obtain ⟨⟩ := h
      exact ⟨[], (List.append_nil _).symm, Nat.succ_pos _, .close hnext⟩
    | more cs₁ =>
      obtain ⟨⟨v, cs₂⟩, hv, h⟩ := bind_eq_ok.1 h
      obtain ⟨ws, rfl, hlength, hws⟩ := ih h
      exact ⟨v :: ws, by simp, Nat.succ_lt_succ hlength, .item hnext hv hws⟩

/-- Reads what follows the name of a member of any object. -/
def valueMember (depth : Nat) (done : List (String × Json)) (name : String) :
    Reader (List (String × Json)) := fun cs => do
  let ((), cs) ← colon cs
  let (v, cs) ← value depth cs
  .ok ((name, v) :: done, cs)

/-- A walk over an object reads its members, one in each round but the last. -/
theorem membersFrom_parses
    (h : membersFrom Quoted.read (valueMember depth) bound first ns cs = .ok (ms, rest)) :
    ∃ ws, ms = ws.reverse ++ ns ∧ ws.length < bound.length ∧
      ParsesMembers depth first cs ws rest := by
  induction bound generalizing first ns cs with
  | nil => contradiction
  | cons b bound ih =>
    rw [membersFrom, bind_eq_ok] at h
    obtain ⟨next, hnext, h⟩ := h
    cases next with
    | close r =>
      obtain ⟨⟩ := h
      exact ⟨[], rfl, Nat.succ_pos _, .close hnext⟩
    | more cs₁ =>
      obtain ⟨⟨k, cs₂⟩, hk, h⟩ := bind_eq_ok.1 h
      obtain ⟨⟨_, cs₄⟩, hm, h⟩ := bind_eq_ok.1 h
      obtain ⟨⟨⟨⟩, cs₃⟩, hcolon, hm⟩ := bind_eq_ok.1 hm
      obtain ⟨⟨v, _⟩, hv, ⟨⟩⟩ := bind_eq_ok.1 hm
      obtain ⟨ws, rfl, hlength, hws⟩ := ih h
      exact ⟨(k, v) :: ws, by simp, Nat.succ_lt_succ hlength, .member hnext hk hcolon hv hws⟩

/-! ## Values -/

/-- How a value is read from a text that starts with it, and what is left. -/
inductive Parses : Nat → List Char → Json → List Char → Prop where
  | null {depth : Nat} {cs rest : List Char} (h : word nullTail cs = .ok ((), rest)) :
    Parses depth ('n' :: cs) .null rest
  | yes {depth : Nat} {cs rest : List Char} (h : word trueTail cs = .ok ((), rest)) :
    Parses depth ('t' :: cs) (.bool true) rest
  | no {depth : Nat} {cs rest : List Char} (h : word falseTail cs = .ok ((), rest)) :
    Parses depth ('f' :: cs) (.bool false) rest
  | string {depth : Nat} {cs rest : List Char} {s : String} (h : Quoted.read cs = .ok (s, rest)) :
    Parses depth ('"' :: cs) (.string s) rest
  | number {depth : Nat} {c : Char} {cs rest : List Char} {n : Number}
    (hc : Numeral.starts c = true) (h : Numeral.read (c :: cs) = .ok (n, rest)) :
    Parses depth (c :: cs) (.number n) rest
  | list {depth : Nat} {cs rest : List Char} {vs : List Json}
    (h : ParsesItems depth true cs vs rest) (hlength : vs.length < cs.length) :
    Parses (depth + 1) ('[' :: cs) (.list vs) rest
  | object {depth : Nat} {cs rest : List Char} {ms : List (String × Json)}
    (h : ParsesMembers depth true cs ms rest) (hlength : ms.length < cs.length) :
    Parses (depth + 1) ('{' :: cs) (.object ms) rest

/-- A value is read by its first character. -/
theorem value_parses (h : value depth cs = .ok (v, rest)) : Parses depth (skipSpace cs) v rest := by
  rw [value] at h
  split at h
  · contradiction
  rename_i c cs hcs
  rw [hcs]
  split at h
  · rename_i hc
    obtain ⟨⟨⟨⟩, _⟩, hread, ⟨⟩⟩ := map_eq_ok.1 h
    exact hc ▸ .null hread
  split at h
  · rename_i hc
    obtain ⟨⟨⟨⟩, _⟩, hread, ⟨⟩⟩ := map_eq_ok.1 h
    exact hc ▸ .yes hread
  split at h
  · rename_i hc
    obtain ⟨⟨⟨⟩, _⟩, hread, ⟨⟩⟩ := map_eq_ok.1 h
    exact hc ▸ .no hread
  split at h
  · rename_i hc
    obtain ⟨⟨s, _⟩, hread, ⟨⟩⟩ := map_eq_ok.1 h
    exact hc ▸ .string hread
  split at h
  · rename_i hc
    obtain ⟨⟨n, _⟩, hread, ⟨⟩⟩ := map_eq_ok.1 h
    exact .number hc hread
  split at h
  · contradiction
  split at h
  · rename_i hc
    obtain ⟨⟨_, _⟩, hread, ⟨⟩⟩ := map_eq_ok.1 h
    obtain ⟨vs, rfl, hlength, hvs⟩ := itemsFrom_parses hread
    exact hc ▸ .list hvs hlength
  split at h
  · rename_i hc
    obtain ⟨⟨_, _⟩, hread, ⟨⟩⟩ := map_eq_ok.1 h
    obtain ⟨ms, rfl, hlength, hms⟩ := membersFrom_parses hread
    rw [hc, List.append_nil, List.reverse_reverse]
    exact .object hms hlength
  · contradiction

/-- No value starts with a blank. -/
theorem Parses.solid (h : Parses depth cs v rest) : Solid cs := by
  cases h with
  | number hc h => exact .cons (Numeral.isSpace_of_starts hc)
  | _ => exact .cons (by decide)

/-! ## Repeated names -/

/-- No object in the value repeats a member name. -/
inductive Distinct : Json → Prop where
  | null : Distinct .null
  | bool (b : Bool) : Distinct (.bool b)
  | number (n : Number) : Distinct (.number n)
  | string (s : String) : Distinct (.string s)
  | list {vs : List Json} (h : ∀ v ∈ vs, Distinct v) : Distinct (.list vs)
  | object {ms : List (String × Json)} (hnames : (ms.map Prod.fst).Nodup)
    (h : ∀ m ∈ ms, Distinct m.2) : Distinct (.object ms)

@[simp] theorem distinct_list : (list vs).Distinct ↔ ∀ v ∈ vs, v.Distinct :=
  ⟨fun h => by cases h; assumption, .list⟩

@[simp] theorem distinct_object :
    (object ms).Distinct ↔ (ms.map Prod.fst).Nodup ∧ ∀ m ∈ ms, m.2.Distinct :=
  ⟨fun h => by cases h; exact ⟨‹_›, ‹_›⟩, fun h => .object h.1 h.2⟩

attribute [simp] Distinct.null Distinct.bool Distinct.number Distinct.string

end CouplingMap.Json
