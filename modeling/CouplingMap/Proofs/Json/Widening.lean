import CouplingMap.Proofs.Json.Agreement
import CouplingMap.Proofs.Json.Decoder
import CouplingMap.Proofs.Json.Grammar

/-!
# Texts with further members

A text may be widened: further members are put anywhere between those of the records in it, under
names that no field of the record has. Their values may be anything in the grammar. What a decoder
gets from a text, it gets from the widened text.

* `Same`, `Bracketed`, `Nullable`, `Recorded`: how a text and the widened one are related, for a
  part that stays as it is, a list, a list that may be null, and a record of two fields.
* `Decoder.Gets`: a decoder gets an answer from a text, whatever follows it.
* `Decoder.Keeps`: a decoder gets the same from related texts. There is one rule for each way to
  make a decoder.
-/

namespace CouplingMap.Json

/-- A relation between a text and the text that it becomes. -/
abbrev TextRel := List Char → List Char → Prop

/-! ## Widened texts -/

/-- A value whose text stays as it is. -/
inductive Same : TextRel
  | text {cs : List Char} (h : ValueText cs) : Same cs cs

/-- Items of a list that are left, from the `i`-th one on; the texts of the `i`-th items are related
by `R i`. -/
inductive ItemsWiden (R : Nat → TextRel) : Nat → TextRel
  | close {i : Nat} {b : List Char} (hb : Blank b) : ItemsWiden R i (b ++ [']']) (b ++ [']'])
  | item {i : Nat} {o cs cs' ds ds' : List Char} (ho : Opening (i == 0) o) (hv : R i cs cs')
    (h : ItemsWiden R (i + 1) ds ds') : ItemsWiden R i (o ++ (cs ++ ds)) (o ++ (cs' ++ ds'))

/-- Members of an object that are left. The texts of the values of the members `f` and `g` are
related by `R` and `S`, and those of other members stay as they are. In front of each member, and of
the closing bracket, there may be further members, which are named neither `f` nor `g`. The flags
tell for the two texts whether the first member comes next, which has no comma in front. -/
inductive MembersWiden (f g : String) (R S : TextRel) : Bool → Bool → TextRel
  | close {first first' : Bool} {b b' : List Char} (hb : Blank b) (hb' : Blank b') :
    MembersWiden f g R S first first' (b ++ ['}']) (b' ++ ['}'])
  | left {first first' : Bool} {o o' t cs cs' ds ds' : List Char} (ho : Opening first o)
    (ho' : Opening first' o') (ht : Title (Names f.toList) t) (hv : R cs cs')
    (h : MembersWiden f g R S false false ds ds') :
    MembersWiden f g R S first first' (o ++ (t ++ (cs ++ ds))) (o' ++ (t ++ (cs' ++ ds')))
  | right {first first' : Bool} {o o' t cs cs' ds ds' : List Char} (ho : Opening first o)
    (ho' : Opening first' o') (ht : Title (Names g.toList) t) (hv : S cs cs')
    (h : MembersWiden f g R S false false ds ds') :
    MembersWiden f g R S first first' (o ++ (t ++ (cs ++ ds))) (o' ++ (t ++ (cs' ++ ds')))
  | other {first first' : Bool} {k o o' t cs ds ds' : List Char} (hf : k ≠ f.toList)
    (hg : k ≠ g.toList) (ho : Opening first o) (ho' : Opening first' o') (ht : Title (Names k) t)
    (hv : ValueText cs) (h : MembersWiden f g R S false false ds ds') :
    MembersWiden f g R S first first' (o ++ (t ++ (cs ++ ds))) (o' ++ (t ++ (cs ++ ds')))
  | further {first first' : Bool} {k o' t cs ds ds' : List Char} (hf : k ≠ f.toList)
    (hg : k ≠ g.toList) (ho' : Opening first' o') (ht : Title (Names k) t) (hv : ValueText cs)
    (h : MembersWiden f g R S first false ds ds') :
    MembersWiden f g R S first first' ds (o' ++ (t ++ (cs ++ ds')))

/-- The texts of a list. -/
inductive Bracketed (R : Nat → TextRel) : TextRel
  | items {xs xs' : List Char} (h : ItemsWiden R 0 xs xs') : Bracketed R ('[' :: xs) ('[' :: xs')

/-- The texts of a list, or null. -/
inductive Nullable (R : Nat → TextRel) : TextRel
  | null : Nullable R ('n' :: nullTail) ('n' :: nullTail)
  | list {cs cs' : List Char} (h : Bracketed R cs cs') : Nullable R cs cs'

/-- The relation for the first item, that for the second one, and no change of others. -/
def inOrder (R S : TextRel) : Nat → TextRel
  | 0 => R
  | 1 => S
  | _ => Same

/-- The texts of a record of two fields: an object, or a list of the fields. -/
inductive Recorded (f g : String) (R S : TextRel) : TextRel
  | object {ms ms' : List Char} (h : MembersWiden f g R S true true ms ms') :
    Recorded f g R S ('{' :: ms) ('{' :: ms')
  | list {cs cs' : List Char} (h : Bracketed (inOrder R S) cs cs') : Recorded f g R S cs cs'

theorem inOrder_same : inOrder Same Same = fun _ => Same := by
  funext i
  match i with
  | 0 => rfl
  | 1 => rfl
  | _ + 2 => rfl

/-- A whole text: a value among blanks. -/
inductive Surrounded (R : TextRel) : TextRel
  | value {b b' c c' cs cs' : List Char} (hb : Blank b) (hb' : Blank b') (hc : Blank c)
    (hc' : Blank c') (h : R cs cs') : Surrounded R (b ++ (cs ++ c)) (b' ++ (cs' ++ c'))

/-- The items of a list may stay as they are. -/
theorem ItemsText.widen : ∀ {first : Bool} {cs : List Char}, ItemsText first cs →
    ∀ i : Nat, (i == 0) = first → ItemsWiden (fun _ => Same) i cs cs
  | _, _, .close hb, _, _ => .close hb
  | _, _, .item ho hv h, i, hi => .item (hi ▸ ho) (.text hv) (h.widen (i + 1) rfl)

/-! ## What follows -/

section

variable {R S : TextRel} {Q : Nat → TextRel} {i : Nat} {f g : String} {first first' : Bool}
  {ds ds' : List Char}

theorem ItemsWiden.ends (h : ItemsWiden Q (i + 1) ds ds') (rest : List Char) :
    Numeral.Ends (ds ++ rest) ∧ Numeral.Ends (ds' ++ rest) := by
  cases h with
  | close hb =>
    rw [List.append_assoc]
    exact ⟨hb.ends_append (Numeral.ends_cons (by decide)),
      hb.ends_append (Numeral.ends_cons (by decide))⟩
  | item ho hv h =>
    have hends {x : List Char} : Numeral.Ends (_ ++ x ++ rest) :=
      (List.append_assoc ..).symm ▸ Opening.ends ho
    exact ⟨hends, hends⟩

/-- A number may stand in front of what follows the first member. -/
theorem MembersWiden.ends (h : MembersWiden f g R S first first' ds ds') (rest : List Char) :
    (first = false → Numeral.Ends (ds ++ rest)) ∧
      (first' = false → Numeral.Ends (ds' ++ rest)) := by
  have hopening {first : Bool} {o x : List Char} (ho : Opening first o) (hfirst : first = false) :
      Numeral.Ends (o ++ x ++ rest) := by
    subst hfirst
    rw [List.append_assoc]
    exact ho.ends
  induction h with
  | close hb hb' =>
    have hends {b : List Char} (hb : Blank b) : Numeral.Ends (b ++ ['}'] ++ rest) := by
      rw [List.append_assoc]
      exact hb.ends_append (Numeral.ends_cons (by decide))
    exact ⟨fun _ => hends hb, fun _ => hends hb'⟩
  | left ho ho' => exact ⟨hopening ho, hopening ho'⟩
  | right ho ho' => exact ⟨hopening ho, hopening ho'⟩
  | other _ _ ho ho' => exact ⟨hopening ho, hopening ho'⟩
  | further _ _ ho' _ _ _ ih => exact ⟨ih.1, hopening ho'⟩

/-! ## Kinds of values -/

theorem ValueText.numberText {c : Char} (h : ValueText (c :: ds))
    (hc : Numeral.starts c = true) : NumberText (c :: ds) := by
  cases h with
  | number h => exact h
  | _ => contradiction

theorem ValueText.stringText (h : ValueText ('"' :: ds)) : StringText ds := by
  cases h with
  | string h => exact h
  | number h =>
    obtain ⟨c, cs, ⟨⟩, hc⟩ := h.starts
    contradiction

theorem ValueText.itemsText (h : ValueText ('[' :: ds)) : ItemsText true ds := by
  cases h with
  | list h => exact h
  | number h =>
    obtain ⟨c, cs, ⟨⟩, hc⟩ := h.starts
    contradiction

end

/-! ## Decoders -/

namespace Decoder

variable {α β : Type} {d : Decoder α} {e : Decoder β} {a : α} {R S : TextRel} {Q : Nat → TextRel}
  {b cs cs' rest r : List Char}

/-- A decoder gets an answer from a text, whatever follows it. -/
def Gets (d : Decoder α) (cs : List Char) (a : α) : Prop :=
  ∀ ⦃b rest : List Char⦄, Blank b → Numeral.Ends rest →
    d.fromText (b ++ (cs ++ rest)) = .ok (a, rest)

/-- What a decoder gets from a text, it gets from the related one. It reads both as a whole. -/
structure Keeps (d : Decoder α) (R : TextRel) : Prop where
  starts : ∀ {cs cs'}, R cs cs' → Starts cs ∧ Starts cs'
  gets : ∀ {cs cs' b rest a r}, R cs cs' → Blank b → Numeral.Ends rest →
    d.fromText (b ++ (cs ++ rest)) = .ok (a, r) → r = rest ∧ d.Gets cs' a

theorem starts_same (h : Same cs cs') : Starts cs ∧ Starts cs' := by
  obtain ⟨h⟩ := h
  exact ⟨h.starts, h.starts⟩

/-! ### Single values -/

/-- Behind blanks a decoder sees the first character of a text. -/
theorem skipSpace_starts (hb : Blank b) {c : Char} {ds : List Char} (hc : isSpace c = false) :
    skipSpace (b ++ (c :: ds ++ rest)) = c :: (ds ++ rest) :=
  hb.skipSpace_solid (Solid.cons hc)

/-- A number is read as a whole, and what is made of it does not depend on the text around it. -/
theorem fromText_numberText (expected : String) (accept : Number → Except Mismatch α)
    (h : NumberText cs) : ∃ t : Numeral, ∀ ⦃b rest : List Char⦄, Blank b → Numeral.Ends rest →
      ∀ {a r}, (number expected accept).fromText (b ++ (cs ++ rest)) = .ok (a, r) ↔
        r = rest ∧ ∃ n, t.number = .ok n ∧ accept n = .ok a := by
  obtain ⟨t, ht⟩ := h.scan
  obtain ⟨c, ds, rfl, hc⟩ := h.starts
  refine ⟨t, fun b rest hb hrest {a r} => ?_⟩
  have hread : Numeral.read (c :: (ds ++ rest)) = t.number >>= fun n => .ok (n, rest) :=
    congrArg (· >>= _) (ht .ended rest hrest)
  simp only [number, skipSpace_starts hb (Numeral.isSpace_of_starts hc), hc, if_true, hread]
  cases t.number with
  | error e => simp [bind, Except.bind]
  | ok n => cases haccept : accept n <;> simp [bind, Except.bind, haccept, eq_comm, and_comm]

/-- A number that stays as it is. -/
theorem keeps_number {expected : String} {accept : Number → Except Mismatch α} :
    (number expected accept).Keeps Same where
  starts := starts_same
  gets := by
    rintro cs _ b rest a r ⟨hv⟩ hb hrest hread
    obtain ⟨c, ds, rfl, hspace, -⟩ := hv.starts
    have hc : Numeral.starts c = true := by
      by_contra hc
      simp only [number, skipSpace_starts hb hspace] at hread
      rw [if_neg hc] at hread
      contradiction
    obtain ⟨t, ht⟩ := fromText_numberText expected accept (hv.numberText hc)
    obtain ⟨rfl, hn⟩ := (ht hb hrest).1 hread
    exact ⟨rfl, fun b rest hb hrest => (ht hb hrest).2 ⟨rfl, hn⟩⟩

theorem keeps_uint32 : uint32.Keeps Same := keeps_number

theorem keeps_double : double.Keeps Same := keeps_number

/-- A string that stays as it is. -/
theorem keeps_string : string.Keeps Same where
  starts := starts_same
  gets := by
    rintro cs _ b rest a r ⟨hv⟩ hb hrest hread
    obtain ⟨c, ds, rfl, hspace, -⟩ := hv.starts
    simp only [string, skipSpace_starts hb hspace] at hread
    split at hread
    · rename_i hc
      subst hc
      obtain ⟨rfl, s, hs, rfl⟩ := Quoted.names_of_read hv.stringText hread
      refine ⟨rfl, fun b rest hb hrest => ?_⟩
      simp only [string, skipSpace_starts hb hspace]
      exact Quoted.read_names hs rest
    · contradiction

/-! ### Lists and pairs -/

theorem Gets.part (h : d.Gets cs a) (hb : Blank b) (hrest : Numeral.Ends rest) :
    d.part (b ++ (cs ++ rest)) = .ok (a, rest) :=
  part_eq_ok.2 (h hb hrest)

/-- An item is read behind its opening. -/
theorem itemsFrom_opening {item : Reader α} {first : Bool} {bound o ds : List Char} {c : Char}
    {done : List α} (ho : Opening first o) (hcs : Starts cs) :
    itemsFrom item (c :: bound) first done (o ++ (cs ++ ds) ++ rest) =
      item (cs ++ (ds ++ rest)) >>= fun p => itemsFrom item bound false (p.1 :: done) p.2 := by
  rw [List.append_assoc, List.append_assoc, itemsFrom, ho.nextItem hcs]
  rfl

/-- The items of a list are read one by one, up to the closing bracket. -/
theorem itemsFrom_widen {i : Nat} {bound : List Char} {as done : List α} (hd : d.Keeps R)
    (h : ItemsWiden (fun _ => R) i cs cs')
    (hread : itemsFrom d.part bound (i == 0) done (cs ++ rest) = .ok (as, r)) :
    r = rest ∧ ∀ ⦃bound' rest' : List Char⦄, cs'.length ≤ bound'.length →
      itemsFrom d.part bound' (i == 0) done (cs' ++ rest') = .ok (as, rest') := by
  induction h generalizing bound done with
  | @close i b hb =>
    have hclose {x : List Char} : b ++ [']'] ++ x = b ++ ']' :: x := List.append_assoc ..
    cases bound with
    | nil => contradiction
    | cons c bound =>
      rw [hclose, itemsFrom, nextItem_close hb] at hread
      cases hread
      refine ⟨rfl, fun bound' rest' hbound => ?_⟩
      rw [List.length_append] at hbound
      obtain ⟨c, bound', rfl⟩ := List.exists_cons_of_length_pos (Nat.lt_of_add_left_lt hbound)
      rw [hclose, itemsFrom, nextItem_close hb]
      rfl
  | item ho hv h ih =>
    cases bound with
    | nil => contradiction
    | cons c bound =>
      obtain ⟨hstarts, hstarts'⟩ := hd.starts hv
      rw [itemsFrom_opening ho hstarts] at hread
      obtain ⟨⟨a, mid⟩, hpart, hread⟩ := bind_eq_ok.1 hread
      obtain ⟨rfl, hgets⟩ := hd.gets hv Blank.nil (h.ends rest).1 (part_eq_ok.1 hpart)
      obtain ⟨rfl, hread'⟩ := ih hread
      refine ⟨rfl, fun bound' rest' hbound => ?_⟩
      have hpos := hstarts'.solid.length_pos
      simp only [List.length_append] at hbound
      obtain ⟨c, bound', rfl⟩ := List.exists_cons_of_length_pos (l := bound') (by omega)
      rw [List.length_cons] at hbound
      rw [itemsFrom_opening ho hstarts']
      exact bind_eq_ok.2 ⟨_, hgets.part Blank.nil (h.ends rest').2, hread' (by omega)⟩

theorem starts_bracketed (h : Bracketed Q cs cs') : Starts cs ∧ Starts cs' := by
  obtain ⟨-⟩ := h
  exact ⟨⟨_, _, rfl, by decide, by decide⟩, ⟨_, _, rfl, by decide, by decide⟩⟩

/-- A list, whose items are read one by one. -/
theorem Keeps.list (hd : d.Keeps R) : (list d).Keeps (Bracketed fun _ => R) where
  starts := starts_bracketed
  gets := by
    rintro _ _ b rest as r ⟨h⟩ hb - hread
    have hitems : items d.part (_ ++ rest) = .ok (as, r) := (opened_list hb).symm.trans hread
    obtain ⟨rfl, hitems'⟩ := itemsFrom_widen hd h hitems
    exact ⟨rfl, fun b rest hb _ => (opened_list hb).trans (hitems' (by simp))⟩

/-- An item that is asked for is read behind its opening. -/
theorem Keeps.itemText {i : Nat} {o ds ds' : List Char} {first : Bool} (hd : d.Keeps R)
    (ho : Opening first o) (hv : R cs cs') (h : ItemsWiden Q (i + 1) ds ds')
    (hread : d.itemText first (o ++ (cs ++ ds) ++ rest) = .ok (a, r)) :
    r = ds ++ rest ∧ ∀ rest' : List Char,
      d.itemText first (o ++ (cs' ++ ds') ++ rest') = .ok (a, ds' ++ rest') := by
  obtain ⟨hstarts, hstarts'⟩ := hd.starts hv
  rw [List.append_assoc, List.append_assoc, Decoder.itemText, ho.nextItem hstarts] at hread
  obtain ⟨rfl, hgets⟩ := hd.gets hv Blank.nil (h.ends rest).1 (part_eq_ok.1 hread)
  refine ⟨rfl, fun rest' => ?_⟩
  rw [List.append_assoc, List.append_assoc, Decoder.itemText, ho.nextItem hstarts']
  exact hgets.part Blank.nil (h.ends rest').2

/-- No item is read where the list ends. -/
theorem itemText_close {first : Bool} (hb : Blank b) :
    d.itemText first (b ++ [']'] ++ rest) = .error .unfit := by
  rw [List.append_assoc, Decoder.itemText, List.singleton_append, nextItem_close hb]
  rfl

/-- A list is not closed in front of a further item. -/
theorem closeList_opening {o : List Char} (ho : Opening false o) :
    closeList (o ++ rest) = .error .malformed := by
  obtain ⟨ha, hb⟩ := ho
  rw [List.append_assoc, List.append_assoc, closeList, ha.skipSpace_append]
  rfl

/-- A list that is closed has no items left. -/
theorem closeList_widen {i : Nat} (h : ItemsWiden Q (i + 1) cs cs')
    (hread : closeList (cs ++ rest) = .ok ((), r)) :
    r = rest ∧ ∀ rest' : List Char, closeList (cs' ++ rest') = .ok ((), rest') := by
  cases h with
  | close hb =>
    have hclose (x : List Char) := (congrArg closeList (List.append_assoc _ [']'] x)).trans
      (closeList_close hb)
    cases (hclose rest).symm.trans hread
    exact ⟨rfl, hclose⟩
  | item ho hv h =>
    rw [List.append_assoc, closeList_opening ho] at hread
    contradiction

/-- A list of two, which are read one by one. -/
theorem Keeps.pair (title lengthTitle : String) (hd : d.Keeps R) (he : e.Keeps S) :
    (pair title lengthTitle d e).Keeps (Bracketed (inOrder R S)) where
  starts := starts_bracketed
  gets := by
    rintro _ _ b rest p r ⟨h⟩ hb - hread
    have hread := (opened_list hb).symm.trans hread
    obtain ⟨⟨a, cs⟩, hfirst, hread⟩ := bind_eq_ok.1 hread
    obtain ⟨⟨c, ds⟩, hsecond, hread⟩ := bind_eq_ok.1 hread
    obtain ⟨⟨⟨⟩, es⟩, hclose, heq⟩ := bind_eq_ok.1 hread
    dsimp only at hsecond hclose heq
    cases h with
    | close hb => rw [itemText_close hb] at hfirst; contradiction
    | item ho hv h =>
      obtain ⟨rfl, hfirst'⟩ := hd.itemText ho hv h hfirst
      cases h with
      | close hb => rw [itemText_close hb] at hsecond; contradiction
      | item ho hv h =>
        obtain ⟨rfl, hsecond'⟩ := he.itemText ho hv h hsecond
        obtain ⟨rfl, hclose'⟩ := closeList_widen h hclose
        cases heq
        refine ⟨rfl, fun b rest hb _ => (opened_list hb).trans ?_⟩
        exact bind_eq_ok.2 ⟨_, hfirst' rest, bind_eq_ok.2 ⟨_, hsecond' rest,
          bind_eq_ok.2 ⟨_, hclose' rest, rfl⟩⟩⟩

/-- A list of which nothing changes is a value that stays as it is. -/
theorem Keeps.of_bracketed {inner : Reader α} (hinner : d.fromText = opened inner)
    (h : d.Keeps (Bracketed fun _ => Same)) : d.Keeps Same where
  starts := starts_same
  gets := by
    rintro cs _ b rest a r ⟨hv⟩ hb hrest hread
    obtain ⟨c, ds, rfl, hspace, -⟩ := hv.starts
    have hc : c = '[' := by
      by_contra hc
      rw [hinner, opened, skipSpace_starts hb hspace] at hread
      dsimp only at hread
      rw [if_neg hc] at hread
      contradiction
    subst hc
    exact h.gets (.items (hv.itemsText.widen 0 rfl)) hb hrest hread

/-- A list that stays as it is. -/
theorem Keeps.list_same (hd : d.Keeps Same) : (Decoder.list d).Keeps Same :=
  .of_bracketed rfl hd.list

/-- A pair that stays as it is. -/
theorem Keeps.pair_same (title lengthTitle : String) (hd : d.Keeps Same) (he : e.Keeps Same) :
    (Decoder.pair title lengthTitle d e).Keeps Same := by
  have hpair := hd.pair title lengthTitle he
  rw [inOrder_same] at hpair
  exact .of_bracketed rfl hpair

/-! ### Decoders made of one other -/

theorem orNull_null (hb : Blank b) :
    (orNull d).fromText (b ++ ('n' :: nullTail ++ rest)) = .ok (none, rest) := by
  simp only [Decoder.orNull, skipSpace_starts hb (c := 'n') (by decide)]
  rfl

theorem orNull_list (hb : Blank b) : (orNull d).fromText (b ++ ('[' :: cs ++ rest)) =
    (d.fromText ('[' :: cs ++ rest)).map fun r => (some r.1, r.2) := by
  simp only [Decoder.orNull, skipSpace_starts hb (c := '[') (by decide)]
  rfl

/-- A list that may be null. -/
theorem Keeps.orNull (h : d.Keeps (Bracketed Q)) : (orNull d).Keeps (Nullable Q) where
  starts := by
    rintro cs cs' (_ | hv)
    · exact ⟨ValueText.null.starts, ValueText.null.starts⟩
    · exact h.starts hv
  gets := by
    rintro cs cs' b rest a r (_ | ⟨⟨hxs⟩⟩) hb hrest hread
    · cases (orNull_null hb).symm.trans hread
      exact ⟨rfl, fun b rest hb _ => orNull_null hb⟩
    · obtain ⟨⟨a, _⟩, hinner, ⟨⟩⟩ := map_eq_ok.1 ((orNull_list hb).symm.trans hread)
      obtain ⟨rfl, hgets⟩ := h.gets (.items hxs) Blank.nil hrest hinner
      exact ⟨rfl, fun b rest hb hrest => (orNull_list hb).trans
        (map_eq_ok.2 ⟨_, hgets Blank.nil hrest, rfl⟩)⟩

/-- A value with a rule. -/
theorem Keeps.check (rule : α → Except String β) (h : d.Keeps R) : (check rule d).Keeps R where
  starts := h.starts
  gets := by
    intro cs cs' b rest a r hv hb hrest hread
    obtain ⟨⟨a', mid⟩, hread, hrule⟩ := bind_eq_ok.1 hread
    obtain ⟨rfl, hgets⟩ := h.gets hv hb hrest hread
    dsimp only at hrule
    split at hrule
    · rename_i c hc
      cases hrule
      refine ⟨rfl, fun b rest hb hrest => bind_eq_ok.2 ⟨_, hgets hb hrest, ?_⟩⟩
      dsimp only
      rw [hc]
    · contradiction

/-- A value to which a function is applied. -/
theorem Keeps.map (f : α → β) (h : d.Keeps R) : (map f d).Keeps R where
  starts := h.starts
  gets := by
    intro cs cs' b rest a r hv hb hrest hread
    obtain ⟨⟨a, _⟩, hinner, ⟨⟩⟩ := map_eq_ok.1 hread
    obtain ⟨rfl, hgets⟩ := h.gets hv hb hrest hinner
    exact ⟨rfl, fun b rest hb hrest => map_eq_ok.2 ⟨_, hgets hb hrest, rfl⟩⟩

/-! ### Records -/

variable {f : Field α} {g : Field β} {s s' : Option α × Option β} {k t o ds ms ms' : List Char}
  {first first' : Bool}

/-- Reads the value of a member behind its colon. -/
def valued (d : Decoder α) : Reader α := fun cs => colon cs >>= fun p => d.part p.2

/-- The value of a member is kept. -/
theorem Keeps.valued {a : List Char} {v : α} (hd : d.Keeps R) (hv : R cs cs') (ha : Blank a)
    (hb : Blank b) (hrest : Numeral.Ends rest)
    (hread : d.valued (a ++ ':' :: (b ++ (cs ++ rest))) = .ok (v, r)) :
    r = rest ∧ ∀ ⦃a b rest : List Char⦄, Blank a → Blank b → Numeral.Ends rest →
      d.valued (a ++ ':' :: (b ++ (cs' ++ rest))) = .ok (v, rest) := by
  have hvalued {a x : List Char} (ha : Blank a) : d.valued (a ++ ':' :: x) = d.part x := by
    rw [Decoder.valued, colon_blank ha]
    rfl
  obtain ⟨rfl, hgets⟩ := hd.gets hv hb hrest (part_eq_ok.1 ((hvalued ha).symm.trans hread))
  exact ⟨rfl, fun a b rest ha hb hrest => (hvalued ha).trans (hgets.part hb hrest)⟩

/-- The member of the first field. -/
theorem recordMember_left (cs : List Char) : recordMember f g s f.name cs =
    if s.1.isSome then .error .unfit
    else (f.decoder.valued cs).map fun p => ((some p.1, s.2), p.2) := by
  rw [recordMember, if_pos rfl, Decoder.valued]
  cases colon cs with
  | error e => rfl
  | ok p => cases h : f.decoder.part p.2 <;> simp [h, bind, Except.bind, Except.map]

/-- The member of the second field. -/
theorem recordMember_right (hne : f.name ≠ g.name) (cs : List Char) :
    recordMember f g s g.name cs =
      if s.2.isSome then .error .unfit
      else (g.decoder.valued cs).map fun p => ((s.1, some p.1), p.2) := by
  rw [recordMember, if_neg hne.symm, if_pos rfl, Decoder.valued]
  cases colon cs with
  | error e => rfl
  | ok p => cases h : g.decoder.part p.2 <;> simp [h, bind, Except.bind, Except.map]

/-- A member leads to an answer, whatever follows it. -/
def Moves (f : Field α) (g : Field β) (s : Option α × Option β) (k cs : List Char)
    (s' : Option α × Option β) : Prop :=
  ∀ ⦃a b rest : List Char⦄, Blank a → Blank b → Numeral.Ends rest →
    recordMember f g s (String.ofList k) (a ++ ':' :: (b ++ (cs ++ rest))) = .ok (s', rest)

theorem Keeps.moves_left {a : List Char} (hf : f.decoder.Keeps R) (hv : R cs cs') (ha : Blank a)
    (hb : Blank b) (hrest : Numeral.Ends rest)
    (hread : recordMember f g s (String.ofList f.name.toList) (a ++ ':' :: (b ++ (cs ++ rest))) =
      .ok (s', r)) :
    r = rest ∧ Moves f g s f.name.toList cs' s' := by
  unfold Moves
  simp only [String.ofList_toList, recordMember_left] at hread ⊢
  split at hread
  · contradiction
  rename_i hfound
  obtain ⟨⟨v, _⟩, hvalue, ⟨⟩⟩ := map_eq_ok.1 hread
  obtain ⟨rfl, hvalue'⟩ := hf.valued hv ha hb hrest hvalue
  exact ⟨rfl, fun a b rest ha hb hrest =>
    (if_neg hfound).trans (map_eq_ok.2 ⟨_, hvalue' ha hb hrest, rfl⟩)⟩

theorem Keeps.moves_right {a : List Char} (hne : f.name ≠ g.name) (hg : g.decoder.Keeps S)
    (hv : S cs cs') (ha : Blank a) (hb : Blank b) (hrest : Numeral.Ends rest)
    (hread : recordMember f g s (String.ofList g.name.toList) (a ++ ':' :: (b ++ (cs ++ rest))) =
      .ok (s', r)) :
    r = rest ∧ Moves f g s g.name.toList cs' s' := by
  unfold Moves
  simp only [String.ofList_toList, recordMember_right hne] at hread ⊢
  split at hread
  · contradiction
  rename_i hfound
  obtain ⟨⟨v, _⟩, hvalue, ⟨⟩⟩ := map_eq_ok.1 hread
  obtain ⟨rfl, hvalue'⟩ := hg.valued hv ha hb hrest hvalue
  exact ⟨rfl, fun a b rest ha hb hrest =>
    (if_neg hfound).trans (map_eq_ok.2 ⟨_, hvalue' ha hb hrest, rfl⟩)⟩

/-- A member of another name leaves everything as it is. -/
theorem moves_other (hf : k ≠ f.name.toList) (hg : k ≠ g.name.toList) (hv : ValueText cs) :
    Moves f g s k cs s := by
  have hname {x : String} (hx : k ≠ x.toList) : String.ofList k ≠ x := by
    rintro rfl
    exact hx String.toList_ofList.symm
  intro a b rest ha hb hrest
  rw [recordMember, if_neg (hname hf), if_neg (hname hg)]
  exact bind_eq_ok.2 ⟨_, colon_blank ha, bind_eq_ok.2 ⟨_, skip_valueText hv hb hrest, rfl⟩⟩

/-- What follows the name of a member is read behind its opening and its title. -/
theorem membersFrom_title {σ : Type} {member : σ → String → Reader σ} {s : σ} {bound : List Char}
    {c : Char} (ho : Opening first o) (ht : Title (Names k) t) :
    ∃ a b : List Char, Blank a ∧ Blank b ∧
      membersFrom Quoted.read member (c :: bound) first s (o ++ (t ++ (cs ++ ds)) ++ rest) =
        member s (String.ofList k) (a ++ ':' :: (b ++ (cs ++ (ds ++ rest)))) >>= fun p =>
          membersFrom Quoted.read member bound false p.1 p.2 := by
  obtain @⟨ks, a, b, hk, ha, hb⟩ := ht
  refine ⟨a, b, ha, hb, ?_⟩
  simp only [List.append_assoc, List.cons_append]
  rw [membersFrom, ho.nextMember]
  show (Quoted.read _ >>= _) = _
  rw [Quoted.read_names hk]
  rfl

/-- A member that leads to an answer is read behind its opening and its title. -/
theorem Moves.membersFrom {bound : List Char} {c : Char} (h : Moves f g s k cs s')
    (ho : Opening first o) (ht : Title (Names k) t) (hrest : Numeral.Ends (ds ++ rest)) :
    membersFrom Quoted.read (recordMember f g) (c :: bound) first s
        (o ++ (t ++ (cs ++ ds)) ++ rest) =
      membersFrom Quoted.read (recordMember f g) bound false s' (ds ++ rest) := by
  obtain ⟨a, b, ha, hb, heq⟩ := membersFrom_title ho ht
  rw [heq, h ha hb hrest]
  rfl

/-- The members that are left lead to an answer, whatever follows them. -/
def Walks (f : Field α) (g : Field β) (first : Bool) (s : Option α × Option β) (ms : List Char)
    (s' : Option α × Option β) : Prop :=
  ∀ ⦃bound rest : List Char⦄, ms.length ≤ bound.length →
    membersFrom Quoted.read (recordMember f g) bound first s (ms ++ rest) = .ok (s', rest)

theorem walks_close (hb : Blank b) : Walks f g first s (b ++ ['}']) s := by
  intro bound rest hbound
  rw [List.length_append] at hbound
  obtain ⟨c, bound, rfl⟩ := List.exists_cons_of_length_pos (Nat.lt_of_add_left_lt hbound)
  rw [List.append_assoc]
  exact membersFrom_close hb

/-- A member, and then those behind it. -/
theorem Moves.walks {s₁ : Option α × Option β} (hm : Moves f g s k cs s₁) (ho : Opening first o)
    (ht : Title (Names k) t) (hends : ∀ rest, Numeral.Ends (ds ++ rest))
    (h : Walks f g false s₁ ds s') : Walks f g first s (o ++ (t ++ (cs ++ ds))) s' := by
  intro bound rest hbound
  have hpos := ht.length_pos
  simp only [List.length_append] at hbound
  obtain ⟨c, bound, rfl⟩ := List.exists_cons_of_length_pos (l := bound) (by omega)
  rw [List.length_cons] at hbound
  rw [hm.membersFrom ho ht (hends rest)]
  exact h (by omega)

/-- The members of an object are read one by one, up to the closing bracket. -/
theorem membersFrom_widen {bound : List Char} (hne : f.name ≠ g.name) (hf : f.decoder.Keeps R)
    (hg : g.decoder.Keeps S) (h : MembersWiden f.name g.name R S first first' ms ms')
    (hread : membersFrom Quoted.read (recordMember f g) bound first s (ms ++ rest) = .ok (s', r)) :
    r = rest ∧ Walks f g first' s ms' s' := by
  induction h generalizing bound s with
  | close hb hb' =>
    cases bound with
    | nil => contradiction
    | cons c bound =>
      rw [List.append_assoc] at hread
      cases (membersFrom_close hb).symm.trans hread
      exact ⟨rfl, walks_close hb'⟩
  | left ho ho' ht hv h ih =>
    cases bound with
    | nil => contradiction
    | cons c bound =>
      obtain ⟨a, b, ha, hb, heq⟩ := membersFrom_title ho ht
      obtain ⟨⟨s₁, _⟩, hmember, hread⟩ := bind_eq_ok.1 (heq.symm.trans hread)
      obtain ⟨rfl, hm⟩ := hf.moves_left hv ha hb ((h.ends rest).1 rfl) hmember
      obtain ⟨rfl, hwalks⟩ := ih hread
      exact ⟨rfl, hm.walks ho' ht (fun rest => (h.ends rest).2 rfl) hwalks⟩
  | right ho ho' ht hv h ih =>
    cases bound with
    | nil => contradiction
    | cons c bound =>
      obtain ⟨a, b, ha, hb, heq⟩ := membersFrom_title ho ht
      obtain ⟨⟨s₁, _⟩, hmember, hread⟩ := bind_eq_ok.1 (heq.symm.trans hread)
      obtain ⟨rfl, hm⟩ := hg.moves_right hne hv ha hb ((h.ends rest).1 rfl) hmember
      obtain ⟨rfl, hwalks⟩ := ih hread
      exact ⟨rfl, hm.walks ho' ht (fun rest => (h.ends rest).2 rfl) hwalks⟩
  | other hk hk' ho ho' ht hv h ih =>
    cases bound with
    | nil => contradiction
    | cons c bound =>
      have hm {s : Option α × Option β} := moves_other (s := s) hk hk' hv
      rw [hm.membersFrom ho ht ((h.ends rest).1 rfl)] at hread
      obtain ⟨rfl, hwalks⟩ := ih hread
      exact ⟨rfl, hm.walks ho' ht (fun rest => (h.ends rest).2 rfl) hwalks⟩
  | further hk hk' ho' ht hv h ih =>
    -- The walk over the first text does not move.
    obtain ⟨rfl, hwalks⟩ := ih hread
    exact ⟨rfl, (moves_other hk hk' hv).walks ho' ht (fun rest => (h.ends rest).2 rfl) hwalks⟩

/-- A field is read as the next item of a list, or the list ends before it. -/
theorem itemText_widen {i : Nat} {ended : Bool} {mid : List Char} (hf : f.decoder.Keeps (Q i))
    (h : ItemsWiden Q i cs cs') (hread : f.itemText (i == 0) (cs ++ rest) = .ok (a, ended, mid)) :
    (ended = true ∧ mid = rest ∧
      ∀ rest', f.itemText (i == 0) (cs' ++ rest') = .ok (a, true, rest')) ∨
    (ended = false ∧ ∃ ds ds', mid = ds ++ rest ∧ ItemsWiden Q (i + 1) ds ds' ∧
      ∀ rest', f.itemText (i == 0) (cs' ++ rest') = .ok (a, false, ds' ++ rest')) := by
  cases h with
  | @close _ b hb =>
    have hclose (x : List Char) : f.itemText (i == 0) (b ++ [']'] ++ x) =
        (f.settle ReadError.unfit none).map fun a => (a, true, x) := by
      rw [List.append_assoc, Field.itemText, List.singleton_append, nextItem_close hb]
      rfl
    obtain ⟨a, hsettle, ⟨⟩⟩ := map_eq_ok.1 ((hclose rest).symm.trans hread)
    exact .inl ⟨rfl, rfl, fun rest' => by rw [hclose, hsettle]; rfl⟩
  | @item _ o cs cs' ds ds' ho hv h =>
    have hitem {cs ds : List Char} (hcs : Starts cs) (x : List Char) :
        f.itemText (i == 0) (o ++ (cs ++ ds) ++ x) =
          (f.decoder.part (cs ++ (ds ++ x))).map fun r => (r.1, false, r.2) := by
      rw [List.append_assoc, List.append_assoc, Field.itemText, ho.nextItem hcs]
      rfl
    obtain ⟨hstarts, hstarts'⟩ := hf.starts hv
    obtain ⟨⟨a, _⟩, hpart, ⟨⟩⟩ := map_eq_ok.1 ((hitem hstarts rest).symm.trans hread)
    obtain ⟨rfl, hgets⟩ := hf.gets hv Blank.nil (h.ends rest).1 (part_eq_ok.1 hpart)
    refine .inr ⟨rfl, ds, ds', rfl, h, fun rest' => (hitem hstarts' rest').trans ?_⟩
    exact map_eq_ok.2 ⟨_, hgets.part Blank.nil (h.ends rest').2, rfl⟩

/-- The fields of a record are read from a list in order. -/
theorem recordItems_widen {p : α × β} (hf : f.decoder.Keeps R) (hg : g.decoder.Keeps S)
    (h : ItemsWiden (inOrder R S) 0 cs cs') (hread : recordItems f g (cs ++ rest) = .ok (p, r)) :
    r = rest ∧ ∀ rest', recordItems f g (cs' ++ rest') = .ok (p, rest') := by
  obtain ⟨⟨a, ended, mid⟩, hfirst, hleft⟩ := bind_eq_ok.1 hread
  rcases itemText_widen (Q := inOrder R S) hf h hfirst with
    ⟨rfl, rfl, hfirst'⟩ | ⟨rfl, ds, ds', rfl, h, hfirst'⟩
  · obtain ⟨b, hsettle, ⟨⟩⟩ := map_eq_ok.1 hleft
    exact ⟨rfl, fun rest' => bind_eq_ok.2 ⟨_, hfirst' rest', map_eq_ok.2 ⟨b, hsettle, rfl⟩⟩⟩
  obtain ⟨⟨b, ended, mid⟩, hsecond, hclosed⟩ := bind_eq_ok.1 hleft
  rcases itemText_widen (Q := inOrder R S) hg h hsecond with
    ⟨rfl, rfl, hsecond'⟩ | ⟨rfl, es, es', rfl, h, hsecond'⟩
  · cases hclosed
    exact ⟨rfl, fun rest' => bind_eq_ok.2 ⟨_, hfirst' rest',
      bind_eq_ok.2 ⟨_, hsecond' rest', rfl⟩⟩⟩
  obtain ⟨⟨⟨⟩, _⟩, hclose, ⟨⟩⟩ := bind_eq_ok.1 hclosed
  obtain ⟨rfl, hclose'⟩ := closeList_widen h hclose
  exact ⟨rfl, fun rest' => bind_eq_ok.2 ⟨_, hfirst' rest', bind_eq_ok.2 ⟨_, hsecond' rest',
    bind_eq_ok.2 ⟨_, hclose' rest', rfl⟩⟩⟩⟩

theorem record_object (title : String) (hb : Blank b) :
    (record title f g).fromText (b ++ ('{' :: ms ++ rest)) =
      members Quoted.read (recordMember f g) (none, none) (ms ++ rest) >>= fun q =>
        f.settle .unfit q.1.1 >>= fun a =>
          g.settle .unfit q.1.2 >>= fun c => .ok ((a, c), q.2) := by
  simp only [Decoder.record, skipSpace_starts hb (c := '{') (by decide)]
  rfl

theorem record_list (title : String) (hb : Blank b) :
    (record title f g).fromText (b ++ ('[' :: cs ++ rest)) = recordItems f g (cs ++ rest) := by
  simp only [Decoder.record, skipSpace_starts hb (c := '[') (by decide)]
  rfl

/-- A record of two fields, as an object or as a list. -/
theorem Keeps.record (title : String) (hne : f.name ≠ g.name) (hf : f.decoder.Keeps R)
    (hg : g.decoder.Keeps S) : (record title f g).Keeps (Recorded f.name g.name R S) where
  starts := by
    rintro cs cs' (_ | hv)
    · exact ⟨⟨_, _, rfl, by decide, by decide⟩, ⟨_, _, rfl, by decide, by decide⟩⟩
    · exact starts_bracketed hv
  gets := by
    rintro cs cs' b rest p r (hms | ⟨⟨h⟩⟩) hb - hread
    · obtain ⟨⟨s, _⟩, hmembers, hsettle⟩ :=
        bind_eq_ok.1 ((record_object title hb).symm.trans hread)
      obtain ⟨a, hfirst, hsettle⟩ := bind_eq_ok.1 hsettle
      obtain ⟨c, hsecond, ⟨⟩⟩ := bind_eq_ok.1 hsettle
      obtain ⟨rfl, hwalks⟩ := membersFrom_widen hne hf hg hms hmembers
      refine ⟨rfl, fun b rest hb _ => (record_object title hb).trans ?_⟩
      exact bind_eq_ok.2 ⟨_, hwalks (by simp),
        bind_eq_ok.2 ⟨_, hfirst, bind_eq_ok.2 ⟨_, hsecond, rfl⟩⟩⟩
    · obtain ⟨rfl, hitems⟩ := recordItems_widen hf hg h ((record_list title hb).symm.trans hread)
      exact ⟨rfl, fun b rest hb _ => (record_list title hb).trans (hitems rest)⟩

/-! ### Whole texts -/

/-- What a decoder gets from a whole text, it gets from the related one. -/
theorem Keeps.ofText {t t' : String} (hd : d.Keeps R) (h : Surrounded R t.toList t'.toList)
    (hread : d.ofText t = .ok a) : d.ofText t' = .ok a := by
  obtain ⟨⟨a', rest⟩, hvalue, hblank⟩ := bind_eq_ok.1 hread
  generalize t.toList = cs at h hvalue
  rw [Decoder.ofText]
  generalize t'.toList = cs' at h
  obtain ⟨hb, hb', hc, hc', h⟩ := h
  have hends {c : List Char} (hc : Blank c) : Numeral.Ends c :=
    List.append_nil c ▸ hc.ends_append Numeral.Ends.nil
  obtain ⟨rfl, hgets⟩ := hd.gets h hb (hends hc) hvalue
  have hskip {c : List Char} (hc : Blank c) : skipSpace c = [] :=
    List.append_nil c ▸ hc.skipSpace_append
  refine bind_eq_ok.2 ⟨_, hgets hb' (hends hc'), ?_⟩
  dsimp only at hblank ⊢
  rw [hskip hc] at hblank
  rw [hskip hc']
  exact hblank

end Decoder

end CouplingMap.Json
