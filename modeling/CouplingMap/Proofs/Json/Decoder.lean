import CouplingMap.Proofs.Json.Drift
import CouplingMap.Proofs.Json.Inverse
import CouplingMap.Proofs.Json.Spelling
import Mathlib.Data.List.Forall2

/-!
# What decoders get from texts

* `Decoder.Reads`: a decoder gets an answer from every text of a value, whatever follows it. There
  is one rule for each way to make a decoder.
* `ReadsBack`: the text of a double is read as the double. `reads_double` says that this is all that
  is needed of the double inside of a larger value.
* `exists_reads_double`: what is true of every finite double.
* `Decoder.Reads.ofText_write`: the whole text of a value, in either layout.
-/

namespace CouplingMap.Json.Decoder

variable {α β : Type} {d : Decoder α} {e : Decoder β} {v w : Json} {a : α} {c : β}
  {b cs rest : List Char}

/-- A decoder gets an answer from every text of a value. -/
def Reads (d : Decoder α) (v : Json) (a : α) : Prop :=
  ∀ ⦃b cs rest : List Char⦄, Blank b → Spells v cs → Numeral.Ends rest →
    d.fromText (b ++ (cs ++ rest)) = .ok (a, rest)

/-- A part of a value is read like a value. -/
theorem Reads.part (h : d.Reads v a) (hb : Blank b) (hv : Spells v cs)
    (hrest : Numeral.Ends rest) : d.part (b ++ (cs ++ rest)) = .ok (a, rest) :=
  congrArg (Except.mapError ReadError.placed) (h hb hv hrest)

/-! ## Numbers -/

/-- What a decoder of numbers gets from the text of the parts of a number. -/
theorem fromText_number {expected : String} {accept : Number → Except Mismatch α} {t : Numeral}
    (hb : Blank b) (ht : t.WellFormed) (hrest : Numeral.Ends rest) :
    (number expected accept).fromText (b ++ (t.chars ++ rest)) = t.number >>= fun n =>
      match accept n with
      | .ok a => .ok (a, rest)
      | .error _ => .error .unfit := by
  have hread := Numeral.read_chars ht hrest
  obtain ⟨c, ds, heq, hstarts⟩ := Numeral.starts_chars ht
  rw [heq, List.cons_append] at hread ⊢
  have hskip : skipSpace (b ++ c :: (ds ++ rest)) = c :: (ds ++ rest) :=
    hb.skipSpace_solid (Solid.cons (head_of_starts hstarts).1)
  simp only [number, hskip, hstarts, if_true, hread]
  cases t.number <;> rfl

/-- A number is read as what a decoder gets from the value of its parts. -/
theorem reads_number {expected : String} {accept : Number → Except Mismatch α} {t : Numeral}
    {n m : Number} (ht : t.WellFormed) (hwrite : t.chars = n.write) (hm : t.number = .ok m)
    (ha : (number expected accept).fromValue (.number m) = .ok a) :
    (number expected accept).Reads (.number n) a := by
  intro b cs rest hb hv hrest
  cases hv with
  | number =>
    rw [← hwrite, fromText_number hb ht hrest, hm]
    show (match accept m with | .ok a => _ | .error _ => _) = _
    rw [show accept m = .ok a from ha]

/-- A coordinate is read back. -/
theorem reads_uint32 (i : UInt32) : uint32.Reads (.number (.integer i.toNat)) i :=
  reads_number (Numeral.wellFormed_natural i.toNat) (Numeral.chars_natural i.toNat)
    (Numeral.number_natural (Nat.lt_trans i.toNat_lt (by decide))) (fromValue_uint32 i)

/-- The text of a double is read as the double. -/
def ReadsBack (x : Binary64) : Prop := double.ofText (String.ofList (Number.writeDouble x)) = .ok x

instance : DecidablePred ReadsBack := fun _ => inferInstanceAs (Decidable (_ = _))

/-- A double is read back if it is the value of the parts of its text. -/
theorem readsBack_iff {x : Binary64} (hfinite : x.isFinite = true) :
    ReadsBack x ↔ ∃ n, (Numeral.ofDouble x).number = .ok n ∧ n.toBinary64 = x := by
  have hread : double.fromText ([] ++ ((Numeral.ofDouble x).chars ++ [])) =
      (Numeral.ofDouble x).number >>= fun n => .ok (n.toBinary64, []) :=
    fromText_number Blank.nil (Numeral.wellFormed_ofDouble x) Numeral.Ends.nil
  rw [Numeral.chars_ofDouble hfinite, List.nil_append, List.append_nil] at hread
  rw [ReadsBack, ofText, Reader.whole, String.toList_ofList, hread]
  cases (Numeral.ofDouble x).number with
  | error e => exact ⟨nofun, nofun⟩
  | ok n =>
    refine ⟨fun h => ⟨n, rfl, Except.ok.inj h⟩, ?_⟩
    rintro ⟨_, ⟨⟩, hx⟩
    exact congrArg Except.ok hx

/-- A double is read as the value of the parts of its text. -/
theorem reads_double_of_number {x y : Binary64} {n : Number} (hfinite : x.isFinite = true)
    (hn : (Numeral.ofDouble x).number = .ok n) (hy : n.toBinary64 = y) :
    double.Reads (.number (.double x)) y :=
  reads_number (Numeral.wellFormed_ofDouble x) (Numeral.chars_ofDouble hfinite) hn
    (congrArg Except.ok hy)

/-- A double is read if its text is read back. -/
theorem reads_double {x : Binary64} (hfinite : x.isFinite = true) (h : ReadsBack x) :
    double.Reads (.number (.double x)) x := by
  obtain ⟨n, hn, hx⟩ := (readsBack_iff hfinite).1 h
  exact reads_double_of_number hfinite hn hx

/-- Every finite double is read as one that is near to it, and as itself if the digits of its text
are not rounded. -/
theorem exists_reads_double {x : Binary64} (hfinite : x.isFinite = true) :
    ∃ y, double.Reads (.number (.double x)) y ∧ y.isFinite = true ∧ x.Near 3 y ∧
      ((Numeral.ofDouble x).Precise → y = x) := by
  obtain ⟨y, hy, hyfinite, hnear⟩ := Numeral.exists_number_near hfinite
  refine ⟨y, reads_double_of_number hfinite hy rfl, hyfinite, hnear, fun hprecise => ?_⟩
  have hsame := hy.symm.trans (Numeral.number_ofDouble hfinite hprecise)
  exact Number.double.inj (Except.ok.inj hsame)

/-! ## Strings -/

/-- Every string is read back. -/
theorem reads_string (s : String) : string.Reads (.string s) s := by
  intro b cs rest hb hv hrest
  cases hv with
  | string =>
    rw [Quoted.write_append]
    unfold string
    dsimp only
    rw [hb.skipSpace_solid (Solid.cons (by decide))]
    exact Quoted.read_write s rest

/-! ## Lists and pairs -/

/-- What is inside of a list is left to the reader of it. -/
theorem opened_list {inner : Reader α} (hb : Blank b) :
    opened inner (b ++ ('[' :: cs ++ rest)) = inner (cs ++ rest) := by
  rw [List.cons_append, opened, hb.skipSpace_solid (Solid.cons (by decide))]
  exact if_pos rfl

/-- The items of a list are read one by one. -/
theorem itemsFrom_items {vs : List Json} {as : List α} {first : Bool} {done : List α}
    {bound : List Char} (h : List.Forall₂ d.Reads vs as) (hbound : vs.length < bound.length)
    (hcs : SpellsItems first vs cs) :
    itemsFrom d.part bound first done (cs ++ rest) = .ok (done.reverse ++ as, rest) := by
  induction h generalizing first done bound cs with
  | nil =>
    obtain ⟨c, bound, rfl⟩ := List.exists_cons_of_length_pos hbound
    cases hcs with
    | close hb =>
      rw [List.append_assoc, List.singleton_append, itemsFrom, nextItem_close hb, List.append_nil]
      rfl
  | @cons v a vs as ha has ih =>
    obtain ⟨c, bound, rfl⟩ := List.exists_cons_of_length_pos (Nat.zero_lt_of_lt hbound)
    cases hcs with
    | item hb hv hxs =>
      have hrest : itemsFrom d.part bound false (a :: done) (_ ++ rest) = _ :=
        ih (Nat.lt_of_succ_lt_succ hbound) hxs
      rw [List.reverse_cons, List.append_assoc, List.singleton_append] at hrest
      rw [List.append_assoc, List.append_assoc, List.append_assoc, itemsFrom, nextItem_item hb hv]
      show (d.part _ >>= _) = _
      rw [← List.nil_append (_ ++ (_ ++ rest)), ha.part .nil hv (hxs.ends rest)]
      exact hrest

/-- A list is read if its items are. -/
theorem Reads.list {vs : List Json} {as : List α} (h : List.Forall₂ d.Reads vs as) :
    (list d).Reads (.list vs) as := by
  intro b cs rest hb hv hrest
  cases hv with
  | list hxs =>
    have hlength := hxs.length_lt
    refine (opened_list hb).trans (itemsFrom_items h ?_ hxs)
    rw [List.length_append]
    omega

/-- A list is read back if its items are. -/
theorem Reads.list_map {form : α → Json} {as : List α} (h : ∀ a ∈ as, d.Reads (form a) a) :
    (Decoder.list d).Reads (.list (as.map form)) as :=
  .list (List.forall₂_map_left_iff.2 (List.forall₂_same.2 h))

/-- An item is read behind its separator. -/
theorem Reads.itemText {first : Bool} (h : d.Reads v a) (hb : Blank b) (hv : Spells v cs)
    (hrest : Numeral.Ends rest) :
    d.itemText first (separator first ++ (b ++ (cs ++ rest))) = .ok (a, rest) := by
  rw [Decoder.itemText, nextItem_item hb hv]
  exact h.part .nil hv hrest

/-- A pair is read if both of its items are. -/
theorem Reads.pair (title lengthTitle : String) (hd : d.Reads v a) (he : e.Reads w c) :
    (pair title lengthTitle d e).Reads (.list [v, w]) (a, c) := by
  intro b cs rest hb hvw hrest
  cases hvw with
  | list hxs =>
    cases hxs with
    | item hb₁ hv hxs =>
      have hends₁ := hxs.ends rest
      cases hxs with
      | item hb₂ hw hxs =>
        have hends₂ := hxs.ends rest
        cases hxs with
        | close hb₃ =>
          refine (opened_list hb).trans ?_
          simp only [List.append_assoc, List.singleton_append] at hends₁ hends₂ ⊢
          refine bind_eq_ok.2 ⟨_, hd.itemText hb₁ hv hends₁, ?_⟩
          refine bind_eq_ok.2 ⟨_, he.itemText hb₂ hw hends₂, ?_⟩
          exact bind_eq_ok.2 ⟨_, closeList_close hb₃, rfl⟩

/-! ## Decoders made of one other -/

/-- A list that may be null is read if it is one. -/
theorem Reads.orNull {vs : List Json} (h : d.Reads (.list vs) a) :
    (orNull d).Reads (.list vs) (some a) := by
  intro b cs rest hb hv hrest
  have hread := h .nil hv hrest
  cases hv with
  | list hxs =>
    rw [List.nil_append, List.cons_append] at hread
    rw [List.cons_append, Decoder.orNull]
    dsimp only
    rw [hb.skipSpace_solid (Solid.cons (by decide))]
    exact congrArg (Except.map fun r => (some r.1, r.2)) hread

/-- A value that obeys a rule is read. -/
theorem Reads.check {rule : α → Except String β} (h : d.Reads v a) (hrule : rule a = .ok c) :
    (check rule d).Reads v c := by
  intro b cs rest hb hv hrest
  refine bind_eq_ok.2 ⟨_, h hb hv hrest, ?_⟩
  simp only [hrule]

theorem Reads.map (f : α → β) (h : d.Reads v a) : (map f d).Reads v (f a) :=
  fun _ _ _ hb hv hrest =>
    congrArg (Except.map fun r : α × List Char => (f r.1, r.2)) (h hb hv hrest)

/-! ## Records -/

/-- The first field is taken from the member with its name. -/
theorem recordMember_first {f : Field α} {g : Field β} (h : f.decoder.Reads v a) (hb : Blank b)
    (hv : Spells v cs) (hrest : Numeral.Ends rest) (found : Option β) :
    recordMember f g (none, found) f.name (':' :: (b ++ (cs ++ rest))) =
      .ok ((some a, found), rest) := by
  rw [recordMember, if_pos rfl]
  exact bind_eq_ok.2 ⟨((), _), rfl, bind_eq_ok.2 ⟨_, h.part hb hv hrest, rfl⟩⟩

/-- The second field is taken from the member with its name. -/
theorem recordMember_second {f : Field α} {g : Field β} (hne : f.name ≠ g.name)
    (h : g.decoder.Reads v c) (hb : Blank b) (hv : Spells v cs) (hrest : Numeral.Ends rest)
    (found : Option α) :
    recordMember f g (found, none) g.name (':' :: (b ++ (cs ++ rest))) =
      .ok ((found, some c), rest) := by
  rw [recordMember, if_neg hne.symm, if_pos rfl]
  exact bind_eq_ok.2 ⟨((), _), rfl, bind_eq_ok.2 ⟨_, h.part hb hv hrest, rfl⟩⟩

/-- Both fields are taken from an object that has them in order. -/
theorem membersFrom_record {f : Field α} {g : Field β} {bound : List Char} (hne : f.name ≠ g.name)
    (hf : f.decoder.Reads v a) (hg : g.decoder.Reads w c) (hbound : 2 < bound.length)
    (hms : SpellsMembers true [(f.name, v), (g.name, w)] cs) :
    membersFrom Quoted.read (recordMember f g) bound true (none, none) (cs ++ rest) =
      .ok ((some a, some c), rest) := by
  match bound, hbound with
  | x :: y :: z :: bound, _ =>
    cases hms with
    | member hb₁ ha₁ hv hms =>
      have hends₁ := hms.ends rest
      cases hms with
      | member hb₂ ha₂ hw hms =>
        have hends₂ := hms.ends rest
        cases hms with
        | close hb₃ =>
          simp only [List.append_assoc, List.cons_append, List.nil_append] at hends₁ hends₂ ⊢
          rw [membersFrom_member hb₁ (recordMember_first hf ha₁ hv hends₁ none),
            membersFrom_member hb₂ (recordMember_second hne hg ha₂ hw hends₂ (some a)),
            membersFrom_close hb₃]

/-- An object of the two fields of a record, in order, is read if both fields are. -/
theorem Reads.record (title : String) (f : Field α) (g : Field β) (hne : f.name ≠ g.name)
    (hf : f.decoder.Reads v a) (hg : g.decoder.Reads w c) :
    (record title f g).Reads (.object [(f.name, v), (g.name, w)]) (a, c) := by
  intro b cs rest hb hvw hrest
  cases hvw with
  | object hms =>
    have hbound := hms.length_lt
    rename_i cs
    have hread : members Quoted.read (recordMember f g) (none, none) (cs ++ rest) =
        .ok ((some a, some c), rest) := by
      refine membersFrom_record hne hf hg ?_ hms
      rw [List.length_append]
      exact Nat.lt_add_right _ hbound
    rw [List.cons_append, Decoder.record]
    dsimp only
    rw [hb.skipSpace_solid (Solid.cons (by decide))]
    exact bind_eq_ok.2 ⟨_, hread, rfl⟩

/-! ## Whole texts -/

/-- The text of a value in either layout is read as a whole. -/
theorem Reads.ofText_write (h : d.Reads v a) (lines : Bool) : d.ofText (write lines v) = .ok a := by
  have hread := h .nil (spells_write lines v) Numeral.Ends.nil
  rw [List.nil_append, List.append_nil] at hread
  exact bind_eq_ok.2 ⟨_, hread, rfl⟩

end CouplingMap.Json.Decoder
