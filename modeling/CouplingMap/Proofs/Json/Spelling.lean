import CouplingMap.Json.Value
import CouplingMap.Proofs.Json.Double
import CouplingMap.Proofs.Json.Quoted

/-!
# The texts of a value

Readers see a text from left to right, so they are told about layouts by the pieces of a text: a
bracket, an item with what follows it, and so on. Both layouts are spellings.

* `Spells`: the texts of a value, with blanks in front of items, members, values and closing
  brackets.
* `spells_compactChars`, `spells_prettyChars`: the two layouts.
* `Spells.head`: how a text starts.
* `SpellsItems.ends`, `SpellsMembers.ends`: a number may stand in front of the rest of a list or an
  object.
* `nextItem_starts`, `membersFrom_member`: what the readers of lists and objects find.
-/

namespace CouplingMap.Json

variable {v : Json} {n : Number} {k : String} {xs : List Json} {ms : List (String × Json)}
  {b cs ds rest : List Char} {first : Bool} {level : Nat}

/-- What stands in front of an item or a member. -/
def separator (first : Bool) : List Char := if first then [] else [',']

mutual

/-- A text of a value. -/
inductive Spells : Json → List Char → Prop
  | null : Spells .null ('n' :: nullTail)
  | yes : Spells (.bool true) ('t' :: trueTail)
  | no : Spells (.bool false) ('f' :: falseTail)
  | number (n : Number) : Spells (.number n) n.write
  | string (s : String) : Spells (.string s) (Quoted.write s)
  | list {xs : List Json} {cs : List Char} (h : SpellsItems true xs cs) :
    Spells (.list xs) ('[' :: cs)
  | object {ms : List (String × Json)} {cs : List Char} (h : SpellsMembers true ms cs) :
    Spells (.object ms) ('{' :: cs)

/-- A text of the items of a list, with the closing bracket. -/
inductive SpellsItems : Bool → List Json → List Char → Prop
  | close {first : Bool} {b : List Char} (hb : Blank b) : SpellsItems first [] (b ++ [']'])
  | item {first : Bool} {v : Json} {xs : List Json} {b cs ds : List Char} (hb : Blank b)
    (hv : Spells v cs) (hxs : SpellsItems false xs ds) :
    SpellsItems first (v :: xs) (separator first ++ (b ++ (cs ++ ds)))

/-- A text of the members of an object, with the closing bracket. -/
inductive SpellsMembers : Bool → List (String × Json) → List Char → Prop
  | close {first : Bool} {b : List Char} (hb : Blank b) : SpellsMembers first [] (b ++ ['}'])
  | member {first : Bool} {k : String} {v : Json} {ms : List (String × Json)}
    {b a cs ds : List Char} (hb : Blank b) (ha : Blank a) (hv : Spells v cs)
    (hms : SpellsMembers false ms ds) :
    SpellsMembers first ((k, v) :: ms)
      (separator first ++ (b ++ (Quoted.write k ++ (':' :: (a ++ (cs ++ ds))))))

end

/-! ## The two layouts -/

theorem blank_newLine (level : Nat) : Blank (newLine level) := by
  intro c hc
  rcases List.mem_cons.1 hc with rfl | hc
  · rfl
  · rw [List.eq_of_mem_replicate hc]
    rfl

mutual

/-- The layout without blanks is a text of the value. -/
theorem spells_compactChars : ∀ v : Json, Spells v (compactChars v)
  | .null => .null
  | .bool true => .yes
  | .bool false => .no
  | .number n => .number n
  | .string s => .string s
  | .list xs => by
    rw [compactChars]
    exact .list (spells_compactItems true xs)
  | .object ms => by
    rw [compactChars]
    exact .object (spells_compactMembers true ms)

theorem spells_compactItems : ∀ (first : Bool) (xs : List Json),
    SpellsItems first xs (compactItems first xs ++ [']'])
  | first, [] => by
    rw [compactItems]
    exact .close .nil
  | first, v :: xs => by
    have h : SpellsItems first (v :: xs) _ :=
      .item .nil (spells_compactChars v) (spells_compactItems false xs)
    simpa only [compactItems, separator, List.append_assoc, List.nil_append] using h

theorem spells_compactMembers : ∀ (first : Bool) (ms : List (String × Json)),
    SpellsMembers first ms (compactMembers first ms ++ ['}'])
  | first, [] => by
    rw [compactMembers]
    exact .close .nil
  | first, (k, v) :: ms => by
    have h : SpellsMembers first ((k, v) :: ms) _ :=
      .member .nil .nil (spells_compactChars v) (spells_compactMembers false ms)
    simpa only [compactMembers, separator, List.append_assoc, List.cons_append, List.nil_append]
      using h

end

theorem blank_space : Blank [' '] := by simp [Blank, isSpace]

mutual

/-- The layout with one item or member on a line is a text of the value. -/
theorem spells_prettyChars : ∀ (level : Nat) (v : Json), Spells v (prettyChars level v)
  | _, .null => by
    rw [prettyChars]
    exact .null
  | _, .bool true => by
    rw [prettyChars]
    exact .yes
  | _, .bool false => by
    rw [prettyChars]
    exact .no
  | _, .number n => by
    rw [prettyChars]
    exact .number n
  | _, .string s => by
    rw [prettyChars]
    exact .string s
  | _, .list [] => by
    rw [prettyChars]
    exact .list (.close .nil)
  | level, .list (v :: xs) => by
    rw [prettyChars, List.append_assoc]
    exact .list (spells_prettyItems level (level + 1) true (v :: xs))
  | _, .object [] => by
    rw [prettyChars]
    exact .object (.close .nil)
  | level, .object (m :: ms) => by
    rw [prettyChars, List.append_assoc]
    exact .object (spells_prettyMembers level (level + 1) true (m :: ms))

theorem spells_prettyItems : ∀ (outer level : Nat) (first : Bool) (xs : List Json),
    SpellsItems first xs (prettyItems level first xs ++ (newLine outer ++ [']']))
  | outer, _, first, [] => by
    rw [prettyItems]
    exact .close (blank_newLine outer)
  | outer, level, first, v :: xs => by
    have h : SpellsItems first (v :: xs) _ :=
      .item (blank_newLine level) (spells_prettyChars level v)
        (spells_prettyItems outer level false xs)
    simpa only [prettyItems, separator, List.append_assoc] using h

theorem spells_prettyMembers : ∀ (outer level : Nat) (first : Bool) (ms : List (String × Json)),
    SpellsMembers first ms (prettyMembers level first ms ++ (newLine outer ++ ['}']))
  | outer, _, first, [] => by
    rw [prettyMembers]
    exact .close (blank_newLine outer)
  | outer, level, first, (k, v) :: ms => by
    have h : SpellsMembers first ((k, v) :: ms) _ :=
      .member (blank_newLine level) blank_space (spells_prettyChars level v)
        (spells_prettyMembers outer level false ms)
    simpa only [prettyMembers, separator, List.append_assoc, List.cons_append, List.nil_append]
      using h

end

theorem toList_write (lines : Bool) (v : Json) :
    (write lines v).toList = if lines then prettyChars 0 v else compactChars v := by
  cases lines <;> exact String.toList_ofList

/-- The text of a value in either layout. -/
theorem spells_write (lines : Bool) (v : Json) : Spells v (write lines v).toList := by
  rw [toList_write]
  split
  · exact spells_prettyChars 0 v
  · exact spells_compactChars v

/-! ## How a text starts -/

/-- No number starts with a blank or with a bracket. -/
theorem head_of_starts {c : Char} (h : Numeral.starts c = true) : isSpace c = false ∧ c ≠ ']' :=
  ⟨Numeral.isSpace_of_starts h, Numeral.ne_of_starts h (by decide)⟩

theorem head_write (n : Number) : ∃ c cs, n.write = c :: cs ∧ isSpace c = false ∧ c ≠ ']' := by
  have hparts {t : Numeral} (h : t.WellFormed) :
      ∃ c cs, t.chars = c :: cs ∧ isSpace c = false ∧ c ≠ ']' := by
    obtain ⟨c, cs, heq, hstarts⟩ := Numeral.starts_chars h
    exact ⟨c, cs, heq, head_of_starts hstarts⟩
  cases n with
  | integer i =>
    cases i with
    | ofNat n =>
      rw [Number.write, Number.writeInteger, ← Numeral.chars_natural]
      exact hparts (Numeral.wellFormed_natural n)
    | negSucc n => exact ⟨'-', _, rfl, by decide, by decide⟩
  | double x =>
    cases hfinite : x.isFinite with
    | true =>
      rw [Number.write, ← Numeral.chars_ofDouble hfinite]
      exact hparts (Numeral.wellFormed_ofDouble x)
    | false =>
      rw [Number.write, Number.writeDouble, hfinite]
      exact ⟨'n', _, rfl, by decide, by decide⟩

/-- A text that starts with neither a blank nor the end of a list. -/
def Starts (cs : List Char) : Prop := ∃ c ds, cs = c :: ds ∧ isSpace c = false ∧ c ≠ ']'

theorem Starts.solid (h : Starts cs) : Solid cs := by
  obtain ⟨c, ds, heq, hc, -⟩ := h
  exact ⟨c, ds, heq, hc⟩

/-- A text of a value starts with neither a blank nor the end of a list. -/
theorem Spells.head (h : Spells v cs) : Starts cs := by
  cases h with
  | number n => exact head_write n
  | _ => exact ⟨_, _, rfl, by decide, by decide⟩

theorem Spells.solid (h : Spells v cs) : Solid cs := h.head.solid

/-! ## What follows a number -/

theorem Numeral.ends_cons {c : Char} (h : c = ',' ∨ c = ']' ∨ c = '}') :
    Numeral.Ends (c :: rest) := by
  rintro d ⟨⟩
  rcases h with rfl | rfl | rfl <;> decide

theorem Blank.ends_append (hb : Blank b) (h : Numeral.Ends rest) : Numeral.Ends (b ++ rest) := by
  cases b with
  | nil => exact h
  | cons c b =>
    rintro d ⟨⟩
    have hspace := hb c List.mem_cons_self
    simp only [isSpace, Bool.or_eq_true, decide_eq_true_eq] at hspace
    rcases hspace with ((rfl | rfl) | rfl) | rfl <;> decide

/-- A number may stand in front of the rest of a list. -/
theorem SpellsItems.ends (h : SpellsItems false xs cs) (rest : List Char) :
    Numeral.Ends (cs ++ rest) := by
  cases h with
  | close hb =>
    rw [List.append_assoc]
    exact hb.ends_append (Numeral.ends_cons (by decide))
  | item => exact Numeral.ends_cons (by decide)

/-- A number may stand in front of the rest of an object. -/
theorem SpellsMembers.ends (h : SpellsMembers false ms cs) (rest : List Char) :
    Numeral.Ends (cs ++ rest) := by
  cases h with
  | close hb =>
    rw [List.append_assoc]
    exact hb.ends_append (Numeral.ends_cons (by decide))
  | member => exact Numeral.ends_cons (by decide)

theorem SpellsItems.ends_nil (h : SpellsItems false xs cs) : Numeral.Ends cs :=
  List.append_nil cs ▸ h.ends []

theorem SpellsMembers.ends_nil (h : SpellsMembers false ms cs) : Numeral.Ends cs :=
  List.append_nil cs ▸ h.ends []

/-! ## Walks over a text -/

/-- The next item is found behind its separator and blanks. -/
theorem nextItem_starts (hb : Blank b) (h : Starts cs) :
    nextItem first (separator first ++ (b ++ (cs ++ rest))) = .ok (.more (cs ++ rest)) := by
  have hskip : skipSpace (b ++ (cs ++ rest)) = cs ++ rest := hb.skipSpace_solid h.solid.append
  obtain ⟨c, ds, rfl, -, hclose⟩ := h
  rw [List.cons_append] at hskip ⊢
  cases first with
  | true =>
    rw [separator, if_pos rfl, List.nil_append, nextItem, hskip]
    simp only [hclose, if_false, if_true]
  | false =>
    have hcomma :
        skipSpace (',' :: (b ++ c :: (ds ++ rest))) = ',' :: (b ++ c :: (ds ++ rest)) := rfl
    rw [separator, if_neg Bool.false_ne_true, List.singleton_append, nextItem, hcomma]
    simp [hskip, hclose]

theorem nextItem_item (hb : Blank b) (hv : Spells v cs) :
    nextItem first (separator first ++ (b ++ (cs ++ rest))) = .ok (.more (cs ++ rest)) :=
  nextItem_starts hb hv.head

/-- The end of a list is found behind blanks. -/
theorem nextItem_close (hb : Blank b) : nextItem first (b ++ ']' :: rest) = .ok (.close rest) := by
  rw [nextItem, hb.skipSpace_solid (Solid.cons (by decide))]
  rfl

theorem closeList_close (hb : Blank b) : closeList (b ++ ']' :: rest) = .ok ((), rest) := by
  rw [closeList, hb.skipSpace_solid (Solid.cons (by decide))]
  rfl

/-- The next member is found behind its separator and blanks. -/
theorem nextMember_member (hb : Blank b) :
    nextMember first (separator first ++ (b ++ '"' :: rest)) = .ok (.more rest) := by
  have hskip : skipSpace (b ++ '"' :: rest) = '"' :: rest :=
    hb.skipSpace_solid (Solid.cons (by decide))
  cases first with
  | true =>
    rw [separator, if_pos rfl, List.nil_append, nextMember, hskip]
    rfl
  | false =>
    have hcomma : skipSpace (',' :: (b ++ '"' :: rest)) = ',' :: (b ++ '"' :: rest) := rfl
    rw [separator, if_neg Bool.false_ne_true, List.singleton_append, nextMember, hcomma]
    simp [hskip]

theorem nextMember_close (hb : Blank b) :
    nextMember first (b ++ '}' :: rest) = .ok (.close rest) := by
  rw [nextMember, hb.skipSpace_solid (Solid.cons (by decide))]
  rfl

/-- A text has more characters than its items. -/
theorem SpellsItems.length_lt (h : SpellsItems first xs cs) : xs.length < cs.length := by
  induction xs generalizing first cs with
  | nil =>
    cases h with
    | close hb => simp
  | cons v xs ih =>
    cases h with
    | item hb hv hxs =>
      have hpos := hv.solid.length_pos
      have hrest := ih hxs
      simp only [List.length_append, List.length_cons]
      omega

/-- A text has more characters than its members. -/
theorem SpellsMembers.length_lt (h : SpellsMembers first ms cs) : ms.length < cs.length := by
  induction ms generalizing first cs with
  | nil =>
    cases h with
    | close hb => simp
  | cons m ms ih =>
    cases h with
    | member hb ha hv hms =>
      have hrest := ih hms
      simp only [List.length_append, List.length_cons]
      omega

/-- A member is left to the action, which gets its name and the text behind it. -/
theorem membersFrom_member {σ : Type} {member : σ → String → Reader σ} {s s' : σ} {c : Char}
    {bound rest' : List Char} (hb : Blank b) (hmember : member s k rest = .ok (s', rest')) :
    membersFrom Quoted.read member (c :: bound) first s
        (separator first ++ (b ++ (Quoted.write k ++ rest))) =
      membersFrom Quoted.read member bound false s' rest' := by
  rw [Quoted.write_append, membersFrom, nextMember_member hb]
  show (Quoted.read _ >>= _) = _
  rw [Quoted.read_write]
  show (member s k rest >>= _) = _
  rw [hmember]
  rfl

theorem membersFrom_close {σ : Type} {name : Reader String} {member : σ → String → Reader σ}
    {s : σ} {c : Char} {bound : List Char} (hb : Blank b) :
    membersFrom name member (c :: bound) first s (b ++ '}' :: rest) = .ok (s, rest) := by
  rw [membersFrom, nextMember_close hb]
  rfl

end CouplingMap.Json
