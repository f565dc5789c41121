import CouplingMap.Proofs.Json.Skip
import CouplingMap.Proofs.Json.Spelling

/-!
# The grammar of JSON texts

The grammar is stated on texts alone, without any reader: what a number, a string, a list and an
object look like, at any depth. Its texts are passed over, and what is read of a string in it is the
string that the text names.

* `NumberText`, `StringText`, `ValueText`: the grammar. Numbers have no bound, and escaped halves of
  surrogate pairs may stand alone.
* `Names`: the characters that the text of a string stands for, if it stands for any.
* `Opening`, `Title`: what stands in front of an item or a member, and of the value of a member.
* `skip_valueText`: every value in the grammar is passed over, and the text after it is left.
-/

namespace CouplingMap.Json

variable {b cs ds rest s : List Char} {c : Char} {n m : Nat} {first : Bool}

/-! ## Numbers -/

/-- The text of an exponent, or none. -/
inductive ExponentText : List Char → Prop
  | absent : ExponentText []
  | present {letter : Char} {sign ds : List Char} (hletter : letter = 'e' ∨ letter = 'E')
    (hsign : sign = [] ∨ sign = ['+'] ∨ sign = ['-']) (hds : IsRun ds) :
    ExponentText (letter :: (sign ++ ds))

/-- The text of a number. Only a lone zero starts with one. -/
inductive NumberText : List Char → Prop
  | parts {whole fraction exponent : List Char} (negative : Bool) (hwhole : IsRun whole)
    (hplain : whole.head? = some '0' → whole = ['0']) (hfraction : ∀ c ∈ fraction, c.isDigit = true)
    (hexponent : ExponentText exponent) :
    NumberText ((if negative then ['-'] else []) ++
      (whole ++ (Numeral.fractionChars fraction ++ exponent)))

/-- A text of an exponent is read as a whole, whatever follows it. -/
theorem ExponentText.scan (h : ExponentText cs) : ∃ e, ∀ early rest, Numeral.Ends rest →
    Numeral.scanExponent early (cs ++ rest) = .ok (e, rest) := by
  cases h with
  | absent =>
    exact ⟨none, fun early rest hrest => Numeral.scanExponent_append (e := none) nofun hrest⟩
  | @present letter sign ds hletter hsign hds =>
    have hscan (early : ReadError) {rest : List Char} (hrest : Numeral.Ends rest) :
        Numeral.scanDigits early (ds ++ rest) = .ok (ds, rest) :=
      Numeral.scanDigits_append hds fun c hc => (hrest c hc).1
    rcases hsign with rfl | rfl | rfl
    · obtain ⟨d, ds, rfl⟩ := List.exists_cons_of_ne_nil hds.1
      have hd : d.isDigit = true := hds.2 d List.mem_cons_self
      refine ⟨some (false, d :: ds), fun early rest hrest => (if_pos hletter).trans ?_⟩
      -- A digit is no sign.
      split
      · cases ‹_ = _›
        contradiction
      · cases ‹_ = _›
        contradiction
      · exact congrArg (Except.map _) (hscan early hrest)
    · exact ⟨some (false, ds), fun early rest hrest =>
        (if_pos hletter).trans (congrArg (Except.map _) (hscan early hrest))⟩
    · exact ⟨some (true, ds), fun early rest hrest =>
        (if_pos hletter).trans (congrArg (Except.map _) (hscan early hrest))⟩

/-- An exponent starts with its letter. -/
theorem ExponentText.head? (h : ExponentText cs) (hrest : Numeral.Ends rest) :
    ∀ c ∈ (cs ++ rest).head?, c.isDigit = false ∧ c ≠ '.' := by
  cases h with
  | absent => exact fun c hc => ⟨(hrest c hc).1, (hrest c hc).2.1⟩
  | present hletter hsign hds =>
    rintro c ⟨⟩
    rcases hletter with rfl | rfl <;> decide

/-- A text of a number is read as a whole, whatever follows it. -/
theorem NumberText.scan (h : NumberText cs) : ∃ t, ∀ early rest, Numeral.Ends rest →
    Numeral.scan early (cs ++ rest) = .ok (t, rest) := by
  obtain @⟨whole, fraction, exponent, negative, hwhole, hplain, hfraction, hexponent⟩ := h
  obtain ⟨e, he⟩ := hexponent.scan
  refine ⟨⟨negative, whole, fraction, e⟩, fun early rest hrest => ?_⟩
  have hhead := hexponent.head? hrest
  simp only [List.append_assoc]
  rw [Numeral.scan_append negative hwhole hplain
    (Numeral.head?_fractionChars _ fun c hc => (hhead c hc).1)]
  exact bind_eq_ok.2 ⟨_, Numeral.scanFraction_append hfraction hhead,
    bind_eq_ok.2 ⟨_, he early rest hrest, rfl⟩⟩

/-- A text of a number starts like one. -/
theorem NumberText.starts (h : NumberText cs) :
    ∃ c ds, cs = c :: ds ∧ Numeral.starts c = true := by
  obtain ⟨negative, ⟨hne, hall⟩, -, -, -⟩ := h
  obtain ⟨d, ds, rfl⟩ := List.exists_cons_of_ne_nil hne
  cases negative with
  | true => exact ⟨_, _, rfl, rfl⟩
  | false =>
    refine ⟨_, _, rfl, ?_⟩
    rw [Numeral.starts, hall d List.mem_cons_self, Bool.or_true]

/-! ## Strings -/

/-- The text of a string after its opening quote, with the closing one. -/
inductive StringText : List Char → Prop
  | close : StringText ['"']
  | plain {c : Char} {cs : List Char} (hquote : c ≠ '"') (hbackslash : c ≠ '\\')
    (hcontrol : Quoted.isControl c = false) (h : StringText cs) : StringText (c :: cs)
  | short {e : Char} {cs : List Char} (he : (Quoted.shortEscape? e).isSome = true)
    (h : StringText cs) : StringText ('\\' :: e :: cs)
  | unit {x y z w : Char} {n : Nat} {cs : List Char} (hn : Quoted.hexQuad? x y z w = some n)
    (h : StringText cs) : StringText ('\\' :: 'u' :: x :: y :: z :: w :: cs)

/-- The characters that the text of a string stands for. A half of a surrogate pair stands for no
character. -/
inductive Names : List Char → List Char → Prop
  | close : Names [] ['"']
  | plain {c : Char} {s cs : List Char} (hquote : c ≠ '"') (hbackslash : c ≠ '\\')
    (hcontrol : Quoted.isControl c = false) (h : Names s cs) : Names (c :: s) (c :: cs)
  | short {e c : Char} {s cs : List Char} (he : Quoted.shortEscape? e = some c) (h : Names s cs) :
    Names (c :: s) ('\\' :: e :: cs)
  | unit {x y z w : Char} {n : Nat} {s cs : List Char} (hn : Quoted.hexQuad? x y z w = some n)
    (hlow : Quoted.isLowSurrogate n = false) (hhigh : Quoted.isHighSurrogate n = false)
    (h : Names s cs) : Names (Char.ofNat n :: s) ('\\' :: 'u' :: x :: y :: z :: w :: cs)
  | pair {x y z w x' y' z' w' : Char} {n m : Nat} {s cs : List Char}
    (hn : Quoted.hexQuad? x y z w = some n) (hm : Quoted.hexQuad? x' y' z' w' = some m)
    (hhigh : Quoted.isHighSurrogate n = true) (hlow : Quoted.isLowSurrogate m = true)
    (h : Names s cs) : Names (Quoted.ofSurrogates n m :: s)
      ('\\' :: 'u' :: x :: y :: z :: w :: '\\' :: 'u' :: x' :: y' :: z' :: w' :: cs)

/-- A text that stands for characters is the text of a string. -/
theorem Names.stringText (h : Names s cs) : StringText cs := by
  induction h with
  | close => exact .close
  | plain hquote hbackslash hcontrol _ ih => exact .plain hquote hbackslash hcontrol ih
  | short he _ ih => exact .short (by rw [he]; rfl) ih
  | unit hn _ _ _ ih => exact .unit hn ih
  | pair hn hm _ _ _ ih => exact .unit hn (.unit hm ih)

namespace Quoted

variable {bound done r tail mid : List Char} {d e x y z w : Char} {escaped : Reader Char}

/-! ### One character -/

theorem charsFrom_plain (hquote : c ≠ '"') (hbackslash : c ≠ '\\')
    (hcontrol : isControl c = false) :
    charsFrom escaped (d :: bound) done (c :: cs) = charsFrom escaped bound (c :: done) cs := by
  rw [charsFrom, if_neg hquote, if_neg hbackslash, if_neg (Bool.eq_false_iff.1 hcontrol)]

theorem charsFrom_escaped (h : escaped tail = .ok (c, mid)) :
    charsFrom escaped (d :: bound) done ('\\' :: tail) =
      charsFrom escaped bound (c :: done) mid := by
  rw [charsFrom, if_neg (by decide), if_pos rfl, h]
  rfl

theorem hexUnit_append (hn : hexQuad? x y z w = some n) (rest : List Char) :
    hexUnit (x :: y :: z :: w :: rest) = .ok (n, rest) := by
  rw [hexUnit, hn]

/-- The letter of an escape by code is no other escape. -/
theorem ne_of_shortEscape? (he : (shortEscape? e).isSome = true) : e ≠ 'u' := by
  rintro rfl
  contradiction

theorem skipped_short (he : (shortEscape? e).isSome = true) :
    skipped (e :: cs) = .ok (' ', cs) := by
  simp [skipped, skipEscape, ne_of_shortEscape? he, he, Except.map]

theorem skipped_unit (hn : hexQuad? x y z w = some n) :
    skipped ('u' :: x :: y :: z :: w :: cs) = .ok (' ', cs) := by
  simp [skipped, skipEscape, hexUnit_append hn, Except.map]

theorem escape_short (he : shortEscape? e = some c) : escape (e :: cs) = .ok (c, cs) := by
  rw [escape, if_neg (ne_of_shortEscape? (by rw [he]; rfl)), he]

/-- An escape by code is read by the kind of its number. -/
theorem escape_unit (hn : hexQuad? x y z w = some n) :
    escape ('u' :: x :: y :: z :: w :: cs) =
      if isLowSurrogate n then .error .malformed
      else if isHighSurrogate n then do
        let ((), cs) ← mark '\\' cs
        let ((), cs) ← mark 'u' cs
        let (m, cs) ← hexUnit cs
        if isLowSurrogate m then .ok (ofSurrogates n m, cs) else .error .malformed
      else .ok (Char.ofNat n, cs) := by
  rw [escape, if_pos rfl, hexChar, hexUnit_append hn]
  rfl

/-! ### Whole strings -/

/-- The rest of a string is passed over in as many rounds as there are characters at most. -/
theorem charsFrom_stringText (done rest : List Char) (h : StringText cs)
    (hbound : cs.length ≤ bound.length) :
    ∃ s, charsFrom skipped bound done (cs ++ rest) = .ok (s, rest) := by
  induction h generalizing bound done with
  | close =>
    obtain ⟨b, bound, rfl⟩ := List.exists_cons_of_length_pos (Nat.zero_lt_of_lt hbound)
    exact ⟨done.reverse, rfl⟩
  | plain hquote hbackslash hcontrol _ ih =>
    obtain ⟨b, bound, rfl⟩ := List.exists_cons_of_length_pos (Nat.zero_lt_of_lt hbound)
    rw [List.cons_append, charsFrom_plain hquote hbackslash hcontrol]
    exact ih _ (Nat.le_of_succ_le_succ hbound)
  | short he _ ih =>
    obtain ⟨b, bound, rfl⟩ := List.exists_cons_of_length_pos (Nat.zero_lt_of_lt hbound)
    simp only [List.length_cons] at hbound
    rw [List.cons_append, List.cons_append, charsFrom_escaped (skipped_short he)]
    exact ih _ (by omega)
  | unit hn _ ih =>
    obtain ⟨b, bound, rfl⟩ := List.exists_cons_of_length_pos (Nat.zero_lt_of_lt hbound)
    simp only [List.length_cons] at hbound
    simp only [List.cons_append]
    rw [charsFrom_escaped (skipped_unit hn)]
    exact ih _ (by omega)

/-- A text of a string is passed over. -/
theorem skip_stringText (h : StringText cs) (rest : List Char) :
    skip (cs ++ rest) = .ok ((), rest) := by
  have hbound : cs.length ≤ (cs ++ rest).length := by simp
  obtain ⟨s, hs⟩ := charsFrom_stringText [] rest h hbound
  exact bind_eq_ok.2 ⟨_, hs, rfl⟩

/-- The rest of a string is read as the characters that it stands for. -/
theorem charsFrom_names (done rest : List Char) (h : Names s cs)
    (hbound : cs.length ≤ bound.length) :
    charsFrom escape bound done (cs ++ rest) = .ok (done.reverse ++ s, rest) := by
  have hnext {done s : List Char} {c : Char} :
      (c :: done).reverse ++ s = done.reverse ++ c :: s := by
    rw [List.reverse_cons, List.append_assoc, List.singleton_append]
  induction h generalizing bound done with
  | close =>
    obtain ⟨b, bound, rfl⟩ := List.exists_cons_of_length_pos (Nat.zero_lt_of_lt hbound)
    rw [List.append_nil]
    rfl
  | plain hquote hbackslash hcontrol _ ih =>
    obtain ⟨b, bound, rfl⟩ := List.exists_cons_of_length_pos (Nat.zero_lt_of_lt hbound)
    rw [List.cons_append, charsFrom_plain hquote hbackslash hcontrol, ← hnext]
    exact ih _ (Nat.le_of_succ_le_succ hbound)
  | short he _ ih =>
    obtain ⟨b, bound, rfl⟩ := List.exists_cons_of_length_pos (Nat.zero_lt_of_lt hbound)
    simp only [List.length_cons] at hbound
    rw [List.cons_append, List.cons_append, charsFrom_escaped (escape_short he), ← hnext]
    exact ih _ (by omega)
  | unit hn hlow hhigh _ ih =>
    obtain ⟨b, bound, rfl⟩ := List.exists_cons_of_length_pos (Nat.zero_lt_of_lt hbound)
    simp only [List.length_cons] at hbound
    simp only [List.cons_append]
    rw [charsFrom_escaped ((escape_unit hn).trans (by rw [hlow, hhigh]; rfl)), ← hnext]
    exact ih _ (by omega)
  | @pair x y z w x' y' z' w' n m s cs hn hm hhigh hlow _ ih =>
    obtain ⟨b, bound, rfl⟩ := List.exists_cons_of_length_pos (Nat.zero_lt_of_lt hbound)
    simp only [List.length_cons] at hbound
    simp only [List.cons_append]
    have hnot : isLowSurrogate n = false := by
      simp only [isHighSurrogate, isLowSurrogate, Bool.and_eq_true, decide_eq_true_eq,
        Bool.and_eq_false_iff, decide_eq_false_iff_not] at hhigh ⊢
      omega
    have hescape : escape ('u' :: x :: y :: z :: w :: '\\' :: 'u' :: x' :: y' :: z' :: w' ::
        (cs ++ rest)) = .ok (ofSurrogates n m, cs ++ rest) := by
      rw [escape_unit hn, hnot, hhigh]
      refine bind_eq_ok.2 ⟨_, mark_eq_ok.2 rfl, bind_eq_ok.2 ⟨_, mark_eq_ok.2 rfl, ?_⟩⟩
      exact bind_eq_ok.2 ⟨_, hexUnit_append hm _, if_pos hlow⟩
    rw [charsFrom_escaped hescape, ← hnext]
    exact ih _ (by omega)

/-- A text that stands for characters is read as these. -/
theorem read_names (h : Names s cs) (rest : List Char) :
    read (cs ++ rest) = .ok (String.ofList s, rest) := by
  have hbound : cs.length ≤ (cs ++ rest).length := by simp
  have hchars := charsFrom_names [] rest h hbound
  exact bind_eq_ok.2 ⟨_, hchars, rfl⟩

/-- What is read of a text of a string is what it stands for. The induction is on the rounds: a
surrogate pair takes one, but two of the escapes of the text. -/
theorem names_of_charsFrom {t : List Char} (h : StringText cs)
    (hread : charsFrom escape bound done (cs ++ rest) = .ok (t, r)) :
    r = rest ∧ ∃ s, Names s cs ∧ t = done.reverse ++ s := by
  induction bound generalizing done cs with
  | nil => contradiction
  | cons b bound ih =>
    cases h with
    | close =>
      cases hread
      exact ⟨rfl, [], .close, (List.append_nil _).symm⟩
    | plain hquote hbackslash hcontrol h =>
      rw [List.cons_append, charsFrom_plain hquote hbackslash hcontrol] at hread
      obtain ⟨rfl, s, hs, rfl⟩ := ih h hread
      exact ⟨rfl, _, .plain hquote hbackslash hcontrol hs, by simp⟩
    | short he h =>
      obtain ⟨c, he⟩ := Option.isSome_iff_exists.1 he
      rw [List.cons_append, List.cons_append, charsFrom_escaped (escape_short he)] at hread
      obtain ⟨rfl, s, hs, rfl⟩ := ih h hread
      exact ⟨rfl, _, .short he hs, by simp⟩
    | @unit x y z w n cs hn h =>
      rw [List.cons_append, charsFrom, if_neg (by decide), if_pos rfl] at hread
      obtain ⟨⟨c, mid⟩, hescape, hread⟩ := bind_eq_ok.1 hread
      simp only [List.cons_append] at hescape
      rw [escape_unit hn] at hescape
      split at hescape
      · contradiction
      rename_i hlow
      split at hescape
      · -- Only another escape by code can follow a first half.
        rename_i hhigh
        obtain ⟨⟨⟨⟩, _⟩, hbackslash, hescape⟩ := bind_eq_ok.1 hescape
        obtain ⟨⟨⟨⟩, _⟩, hu, hescape⟩ := bind_eq_ok.1 hescape
        obtain ⟨⟨m, _⟩, hunit, hescape⟩ := bind_eq_ok.1 hescape
        dsimp only at hu hunit hescape
        have hcs := mark_eq_ok.1 hbackslash
        rw [mark_eq_ok.1 hu] at hcs
        split at hescape
        · rename_i hlow'
          obtain ⟨rfl, rfl⟩ := Prod.mk.inj (Except.ok.inj hescape)
          cases h with
          | close => simp at hcs
          | plain hquote hne hcontrol h => simp [hne] at hcs
          | short he h => simp [ne_of_shortEscape? he] at hcs
          | @unit x' y' z' w' m' cs hm h =>
            simp only [List.cons_append, List.cons.injEq, true_and] at hcs
            rw [← hcs, hexUnit_append hm] at hunit
            cases hunit
            obtain ⟨rfl, s, hs, rfl⟩ := ih h hread
            exact ⟨rfl, _, .pair hn hm hhigh hlow' hs, by simp⟩
        · contradiction
      · rename_i hhigh
        cases hescape
        obtain ⟨rfl, s, hs, rfl⟩ := ih h hread
        exact ⟨rfl, _, .unit hn (Bool.eq_false_iff.2 hlow) (Bool.eq_false_iff.2 hhigh) hs, by simp⟩

/-- A text of a string that is read is read as what it stands for, and all of it. -/
theorem names_of_read {t : String} (h : StringText cs) (hread : read (cs ++ rest) = .ok (t, r)) :
    r = rest ∧ ∃ s, Names s cs ∧ t = String.ofList s := by
  obtain ⟨⟨_, _⟩, hchars, ⟨⟩⟩ := bind_eq_ok.1 hread
  obtain ⟨hrest, s, hs, heq⟩ := names_of_charsFrom h hchars
  exact ⟨hrest, s, hs, congrArg String.ofList heq⟩

end Quoted

/-! ## Values -/

/-- What stands in front of an item or a member: a comma unless it is the first one, and blanks. -/
inductive Opening (first : Bool) : List Char → Prop
  | blanks {a b : List Char} (ha : Blank a) (hb : Blank b) :
    Opening first (a ++ (separator first ++ b))

/-- What stands in front of the value of a member: its name, whose text is in `P`, and a colon, with
blanks around it. -/
inductive Title (P : List Char → Prop) : List Char → Prop
  | name {ks a b : List Char} (hk : P ks) (ha : Blank a) (hb : Blank b) :
    Title P ('"' :: (ks ++ (a ++ ':' :: b)))

mutual

/-- The text of a value. -/
inductive ValueText : List Char → Prop
  | null : ValueText ('n' :: nullTail)
  | yes : ValueText ('t' :: trueTail)
  | no : ValueText ('f' :: falseTail)
  | string {cs : List Char} (h : StringText cs) : ValueText ('"' :: cs)
  | number {cs : List Char} (h : NumberText cs) : ValueText cs
  | list {cs : List Char} (h : ItemsText true cs) : ValueText ('[' :: cs)
  | object {cs : List Char} (h : MembersText true cs) : ValueText ('{' :: cs)

/-- The text of the items of a list that are left, with the closing bracket. -/
inductive ItemsText : Bool → List Char → Prop
  | close {first : Bool} {b : List Char} (hb : Blank b) : ItemsText first (b ++ [']'])
  | item {first : Bool} {o cs ds : List Char} (ho : Opening first o) (hv : ValueText cs)
    (h : ItemsText false ds) : ItemsText first (o ++ (cs ++ ds))

/-- The text of the members of an object that are left, with the closing bracket. -/
inductive MembersText : Bool → List Char → Prop
  | close {first : Bool} {b : List Char} (hb : Blank b) : MembersText first (b ++ ['}'])
  | member {first : Bool} {o t cs ds : List Char} (ho : Opening first o)
    (ht : Title StringText t) (hv : ValueText cs) (h : MembersText false ds) :
    MembersText first (o ++ (t ++ (cs ++ ds)))

end

theorem ValueText.starts (h : ValueText cs) : Starts cs := by
  cases h with
  | number h =>
    obtain ⟨c, ds, heq, hc⟩ := h.starts
    exact ⟨c, ds, heq, head_of_starts hc⟩
  | _ => exact ⟨_, _, rfl, by decide, by decide⟩

/-! ## Openings and titles -/

variable {o t : List Char}

/-- The next item stands behind its opening. -/
theorem Opening.nextItem (ho : Opening first o) (h : Starts cs) :
    nextItem first (o ++ (cs ++ rest)) = .ok (.more (cs ++ rest)) := by
  obtain ⟨ha, hb⟩ := ho
  have hblank {a x : List Char} (ha : Blank a) :
      Json.nextItem first (a ++ x) = Json.nextItem first x := by
    rw [Json.nextItem, Json.nextItem, ha.skipSpace_append]
  rw [List.append_assoc, hblank ha, List.append_assoc]
  exact nextItem_starts hb h

/-- The name of the next member stands behind its opening. -/
theorem Opening.nextMember (ho : Opening first o) (rest : List Char) :
    nextMember first (o ++ '"' :: rest) = .ok (.more rest) := by
  obtain ⟨ha, hb⟩ := ho
  have hblank {a x : List Char} (ha : Blank a) :
      Json.nextMember first (a ++ x) = Json.nextMember first x := by
    rw [Json.nextMember, Json.nextMember, ha.skipSpace_append]
  rw [List.append_assoc, hblank ha, List.append_assoc]
  exact nextMember_member hb

theorem Title.length_pos {P : List Char → Prop} (ht : Title P t) : 0 < t.length := by
  obtain ⟨-, -, -⟩ := ht
  exact Nat.succ_pos _

/-- The colon of a member stands behind blanks. -/
theorem colon_blank {a : List Char} (ha : Blank a) : colon (a ++ ':' :: rest) = .ok ((), rest) := by
  rw [colon, ha.skipSpace_solid (Solid.cons (by decide))]
  rfl

/-! ## What follows -/

/-- A number may stand in front of an opening that has a comma. -/
theorem Opening.ends (ho : Opening false o) : Numeral.Ends (o ++ rest) := by
  obtain ⟨ha, hb⟩ := ho
  rw [List.append_assoc, List.append_assoc]
  exact ha.ends_append (Numeral.ends_cons (by decide))

theorem ItemsText.ends (h : ItemsText false cs) : Numeral.Ends (cs ++ rest) := by
  cases h with
  | close hb =>
    rw [List.append_assoc]
    exact hb.ends_append (Numeral.ends_cons (by decide))
  | item ho hv h =>
    rw [List.append_assoc]
    exact ho.ends

theorem MembersText.ends (h : MembersText false cs) : Numeral.Ends (cs ++ rest) := by
  cases h with
  | close hb =>
    rw [List.append_assoc]
    exact hb.ends_append (Numeral.ends_cons (by decide))
  | member ho ht hv h =>
    rw [List.append_assoc]
    exact ho.ends

/-! ## Passing over values -/

variable {mid : List Char}

theorem skipToken_blank (hb : Blank b) : skipToken (b ++ cs) = skipToken cs := by
  rw [skipToken, skipToken, hb.skipSpace_append]

/-- An item is passed over behind its opening. -/
theorem Opening.closes (ho : Opening first o) (h : Starts cs)
    (hpasses : Passes skipToken (cs ++ mid) mid) (hmid : Closes .list false mid rest) :
    Closes .list first (o ++ (cs ++ mid)) rest := by
  obtain ⟨c, tail, hcs, hclose, hcomma, hskip⟩ := skipSpace_of_nextItem (ho.nextItem h)
  refine .item hcs hclose hcomma (hpasses.of_eq ?_ ?_) hmid
  · show skipToken _ = _
    rw [← skipToken_skipSpace, hskip]
  · rw [← hskip]
    exact length_skipSpace_le _

/-- A member is passed over behind its opening and its title. -/
theorem Title.closes (ht : Title StringText t) (ho : Opening first o)
    (hpasses : Passes skipToken (cs ++ mid) mid) (hmid : Closes .object false mid rest) :
    Closes .object first (o ++ (t ++ (cs ++ mid))) rest := by
  obtain @⟨ks, a, b, hks, ha, hb⟩ := ht
  obtain ⟨c, tail, hcs, hclose, hcomma, hskip⟩ := skipSpace_of_nextMember
    (ho.nextMember (ks ++ (a ++ ':' :: (b ++ (cs ++ mid)))))
  have hname : skipName (if first then c :: tail else tail) = .ok ((), b ++ (cs ++ mid)) := by
    rw [skipName, hskip]
    exact bind_eq_ok.2 ⟨_, Quoted.skip_stringText hks _, colon_blank ha⟩
  have hlength := length_skipSpace_le (if first then c :: tail else tail)
  simp only [hskip, List.length_cons, List.length_append] at hlength
  simp only [List.append_assoc, List.cons_append]
  refine .item hcs hclose hcomma (hpasses.of_eq ?_ ?_) hmid
  · rw [skipItem, hname]
    exact skipToken_blank hb
  · simp only [List.length_append]
    omega

/-- A token that opens nothing is passed over. -/
theorem Passes.of_head {cs : List Char} (h : skipToken (cs ++ rest) = .ok (none, rest))
    (hcs : Starts cs) : Passes skipToken (cs ++ rest) rest := by
  have hpos := hcs.solid.length_pos
  refine .of_token h ?_
  rw [List.length_append]
  omega

theorem NumberText.skipToken (h : NumberText cs) (hrest : Numeral.Ends rest) :
    skipToken (cs ++ rest) = .ok (none, rest) := by
  obtain ⟨t, ht⟩ := h.scan
  have hscan := ht .malformed rest hrest
  obtain ⟨c, ds, rfl, hc⟩ := h.starts
  have hne {d : Char} (hd : Numeral.starts d = false) := Numeral.ne_of_starts hc hd
  rw [List.cons_append] at hscan ⊢
  rw [Json.skipToken, (Solid.cons (Numeral.isSpace_of_starts hc)).skipSpace_eq]
  dsimp only
  rw [if_neg (hne (by decide)), if_neg (hne (by decide)), if_neg (hne (by decide)),
    if_neg (hne (by decide)), if_pos hc, hscan]
  rfl

mutual

/-- A value in the grammar is passed over, at any depth. -/
theorem ValueText.passes : ∀ {cs : List Char}, ValueText cs → ∀ {rest : List Char},
    Numeral.Ends rest → Passes skipToken (cs ++ rest) rest
  | _, .null, _, _ => .of_head rfl ValueText.null.starts
  | _, .yes, _, _ => .of_head rfl ValueText.yes.starts
  | _, .no, _, _ => .of_head rfl ValueText.no.starts
  | _, .string h, rest, _ =>
    .of_head (map_eq_ok.2 ⟨_, Quoted.skip_stringText h rest, rfl⟩) (ValueText.string h).starts
  | _, .number h, _, hrest => .of_head (h.skipToken hrest) (ValueText.number h).starts
  | _, .list h, rest, _ =>
    have hcloses := h.closes rest
    ⟨Nat.lt_succ_of_lt hcloses.length_lt, .inr ⟨.list, _, rfl, Nat.lt_succ_self _, hcloses⟩⟩
  | _, .object h, rest, _ =>
    have hcloses := h.closes rest
    ⟨Nat.lt_succ_of_lt hcloses.length_lt, .inr ⟨.object, _, rfl, Nat.lt_succ_self _, hcloses⟩⟩

/-- The rest of an open list is passed over. -/
theorem ItemsText.closes : ∀ {first : Bool} {cs : List Char}, ItemsText first cs →
    ∀ rest : List Char, Closes .list first (cs ++ rest) rest
  | first, _, .close hb, rest => by
    rw [List.append_assoc]
    exact .of_close (hb.skipSpace_solid (Solid.cons (by decide)))
  | first, _, .item ho hv h, rest => by
    rw [List.append_assoc, List.append_assoc]
    exact ho.closes hv.starts (hv.passes h.ends) (h.closes rest)

/-- The rest of an open object is passed over. -/
theorem MembersText.closes : ∀ {first : Bool} {cs : List Char}, MembersText first cs →
    ∀ rest : List Char, Closes .object first (cs ++ rest) rest
  | first, _, .close hb, rest => by
    rw [List.append_assoc]
    exact .of_close (hb.skipSpace_solid (Solid.cons (by decide)))
  | first, _, .member ho ht hv h, rest => by
    rw [List.append_assoc, List.append_assoc, List.append_assoc]
    exact ht.closes ho (hv.passes h.ends) (h.closes rest)

end

/-- Every value in the grammar is passed over, and the text after it is left. -/
theorem skip_valueText (h : ValueText cs) (hb : Blank b) (hrest : Numeral.Ends rest) :
    skip (b ++ (cs ++ rest)) = .ok ((), rest) := by
  have htoken : skipToken (b ++ (cs ++ rest)) = skipToken (cs ++ rest) := skipToken_blank hb
  refine ((h.passes hrest).of_eq htoken ?_).skip
  simp only [List.length_append]
  omega

end CouplingMap.Json
