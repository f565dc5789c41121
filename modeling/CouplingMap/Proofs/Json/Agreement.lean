import CouplingMap.Json.Decoder
import CouplingMap.Proofs.Json.Skip

/-!
# Decoders get the same from a text as from its value

A decoder reads a text once from left to right, or walks over a value that has been read before. If
the text is that of the value, both ways succeed with the same thing or both fail. No object of the
value may repeat a member name, since a text with a repeated field is refused while a value has its
last one only.

* `Decoder.Agrees`: the two ways agree. There is one rule for each way to make a decoder.
* `Decoder.Agrees.ofText_eq_ok`: whole texts.
-/

namespace CouplingMap.Json

variable {α β : Type} {depth : Nat} {first : Bool} {bound cs cs₁ rest r : List Char} {c : Char}
  {v : Json} {vs : List Json} {ms : List (String × Json)} {k : String}

namespace Decoder

variable {d : Decoder α} {e : Decoder β} {a : α} {as done : List α}

/-- A decoder gets from a text what it gets from a value, and leaves `rest`. -/
def Matches (d : Decoder α) (cs : List Char) (v : Json) (rest : List Char) : Prop :=
  ∀ a r, d.fromText cs = .ok (a, r) ↔ d.fromValue v = .ok a ∧ r = rest

/-- A decoder gets from every text what it gets from the value that is read from the text. -/
def Agrees (d : Decoder α) : Prop :=
  ∀ ⦃depth : Nat⦄ ⦃cs rest : List Char⦄ ⦃v : Json⦄, value depth cs = .ok (v, rest) →
    v.Distinct → d.Matches cs v rest

/-- Texts and values that are refused match. -/
theorem matches_of_error {p : ReadError} {q : Mismatch} (hp : d.fromText cs = .error p)
    (hq : d.fromValue v = .error q) : d.Matches cs v rest := by
  intro a r
  rw [hp, hq]
  exact ⟨nofun, fun h => nomatch h.1⟩

/-- Texts and values that are accepted match. -/
theorem matches_of_ok (hp : d.fromText cs = .ok (a, rest)) (hq : d.fromValue v = .ok a) :
    d.Matches cs v rest := by
  intro b r
  rw [hp, hq, Except.ok.injEq, Except.ok.injEq, Prod.mk.injEq, eq_comm (a := r)]

/-- It is enough that a decoder agrees on texts without blanks in front. -/
theorem agrees_of_parses (hskip : ∀ cs, d.fromText cs = d.fromText (skipSpace cs))
    (h : ∀ {depth cs v rest}, value depth cs = .ok (v, rest) → Parses depth cs v rest →
      v.Distinct → d.Matches cs v rest) : d.Agrees := by
  intro depth cs rest v hv hdistinct a r
  rw [hskip]
  exact h ((value_skipSpace depth cs).trans hv) (value_parses hv) hdistinct a r

/-! ## Single values -/

theorem agrees_number (expected : String) (accept : Number → Except Mismatch α) :
    (number expected accept).Agrees := by
  refine agrees_of_parses (fun cs => by simp only [number, skipSpace_skipSpace]) ?_
  intro depth cs v rest hv h hdistinct
  cases h with
  | @number _ c cs _ n hc h =>
    have hsolid : skipSpace (c :: cs) = c :: cs :=
      (Solid.cons (Numeral.isSpace_of_starts hc)).skipSpace_eq
    cases ha : accept n with
    | ok a =>
      refine matches_of_ok ?_ ha
      simp only [number, hsolid, if_pos hc, h, bind, Except.bind, ha]
    | error q =>
      refine matches_of_error (p := .unfit) ?_ ha
      simp only [number, hsolid, if_pos hc, h, bind, Except.bind, ha]
  | _ => exact matches_of_error rfl rfl

theorem agrees_uint32 : uint32.Agrees := agrees_number _ _

theorem agrees_double : double.Agrees := agrees_number _ _

theorem agrees_string : string.Agrees := by
  refine agrees_of_parses (fun cs => by simp only [string, skipSpace_skipSpace]) ?_
  intro depth cs v rest hv h hdistinct
  cases h with
  | string h => exact matches_of_ok h rfl
  | @number _ c cs _ n hc h =>
    refine matches_of_error (p := otherKind (c :: cs)) ?_ rfl
    simp only [string, (Solid.cons (Numeral.isSpace_of_starts hc)).skipSpace_eq,
      if_neg (Numeral.ne_of_starts hc (by decide : Numeral.starts '"' = false))]
  | _ => exact matches_of_error rfl rfl

/-! ## Decoders made of one other -/

theorem part_eq_ok {x : α × List Char} : d.part cs = .ok x ↔ d.fromText cs = .ok x := mapError_eq_ok

/-- A rule does not tell texts from values. -/
theorem Agrees.check (rule : α → Except String β) (h : d.Agrees) : (check rule d).Agrees := by
  intro depth cs rest v hv hdistinct b r
  have h := h hv hdistinct
  show d.fromText cs >>= _ = _ ↔ d.fromValue v >>= _ = _ ∧ _
  rw [bind_eq_ok, bind_eq_ok]
  constructor
  · rintro ⟨⟨a, r'⟩, ha, hb⟩
    obtain ⟨ha, rfl⟩ := (h a r').1 ha
    dsimp only at hb
    split at hb
    · rename_i b' hrule
      obtain ⟨rfl, rfl⟩ := Prod.mk.inj (Except.ok.inj hb)
      exact ⟨⟨a, ha, by rw [hrule]⟩, rfl⟩
    · contradiction
  · rintro ⟨⟨a, ha, hb⟩, rfl⟩
    refine ⟨(a, r), (h a r).2 ⟨ha, rfl⟩, ?_⟩
    dsimp only
    split at hb
    · rw [Except.ok.inj hb]
    · contradiction

theorem Agrees.map (f : α → β) (h : d.Agrees) : (map f d).Agrees := by
  intro depth cs rest v hv hdistinct b r
  have h := h hv hdistinct
  show (d.fromText cs).map _ = _ ↔ (d.fromValue v).map f = _ ∧ _
  rw [map_eq_ok, map_eq_ok]
  constructor
  · rintro ⟨⟨a, r'⟩, ha, hb⟩
    obtain ⟨rfl, rfl⟩ := Prod.mk.inj hb
    obtain ⟨ha, rfl⟩ := (h a r').1 ha
    exact ⟨⟨a, ha, rfl⟩, rfl⟩
  · rintro ⟨⟨a, ha, rfl⟩, rfl⟩
    exact ⟨(a, r), (h a r).2 ⟨ha, rfl⟩, rfl⟩

/-- Only null starts with its first character. -/
theorem Agrees.orNull (hd : d.Agrees) : (orNull d).Agrees := by
  refine agrees_of_parses (fun cs => by simp only [Decoder.orNull, skipSpace_skipSpace]) ?_
  intro depth cs v rest hv h hdistinct
  have hsome {c : Char} {tail : List Char} (hcs : cs = c :: tail) (hc : c ≠ 'n')
      (hnull : v ≠ .null) : (Decoder.orNull d).Matches cs v rest := by
    have htext : (Decoder.orNull d).fromText cs = (Decoder.map some d).fromText cs := by
      simp only [Decoder.orNull, h.solid.skipSpace_eq]
      rw [hcs]
      exact if_neg hc
    have hvalue : (Decoder.orNull d).fromValue v = (Decoder.map some d).fromValue v := by
      simp only [Decoder.orNull]
      rfl
    intro o r
    rw [htext, hvalue]
    exact hd.map some hv hdistinct o r
  cases h with
  | null h => exact matches_of_ok (map_eq_ok.2 ⟨_, h, rfl⟩) rfl
  | number hc h => exact hsome rfl (Numeral.ne_of_starts hc (by decide)) nofun
  | _ => exact hsome rfl (by decide) nofun

/-! ## Lists and pairs -/

/-- The items of a list are decoded one after another. -/
theorem itemsFrom_eq_ok (hd : d.Agrees) (h : ParsesItems depth first cs vs rest)
    (hdistinct : ∀ v ∈ vs, v.Distinct) (hbound : vs.length < bound.length) :
    itemsFrom d.part bound first done cs = .ok (as, r) ↔
      ∃ bs, d.itemValues vs = .ok bs ∧ as = done.reverse ++ bs ∧ r = rest := by
  induction h generalizing bound done with
  | close h =>
    obtain ⟨b, bound, rfl⟩ := List.exists_cons_of_length_pos hbound
    rw [itemsFrom, h]
    constructor
    · rintro ⟨⟩
      exact ⟨[], rfl, (List.append_nil _).symm, rfl⟩
    · rintro ⟨bs, ⟨⟩, rfl, rfl⟩
      rw [List.append_nil]
      rfl
  | @item first cs cs₁ cs₂ rest v vs h hv hvs ih =>
    obtain ⟨b, bound, rfl⟩ := List.exists_cons_of_length_pos (Nat.zero_lt_of_lt hbound)
    obtain ⟨hdv, hdvs⟩ := List.forall_mem_cons.1 hdistinct
    rw [itemsFrom, h, itemValues]
    show d.part cs₁ >>= _ = _ ↔ _
    simp only [bind_eq_ok, part_eq_ok, Prod.exists, hd hv hdv _ _]
    constructor
    · rintro ⟨a, _, ⟨ha, rfl⟩, htail⟩
      obtain ⟨bs, hbs, rfl, rfl⟩ := (ih hdvs (Nat.lt_of_succ_lt_succ hbound)).1 htail
      exact ⟨a :: bs, ⟨a, ha, bs, hbs, rfl⟩, by simp, rfl⟩
    · rintro ⟨_, ⟨a, ha, bs, hbs, ⟨⟩⟩, rfl, rfl⟩
      exact ⟨a, cs₂, ⟨ha, rfl⟩,
        (ih hdvs (Nat.lt_of_succ_lt_succ hbound)).2 ⟨bs, hbs, by simp, rfl⟩⟩

/-- A decoder of lists agrees if it does so from the opening bracket on. -/
theorem agrees_of_opened {inner : Reader α} (htext : d.fromText = opened inner)
    (hvalue : ∀ v, (∀ vs, v ≠ .list vs) → ∃ q, d.fromValue v = .error q)
    (h : ∀ {depth cs rest vs}, ParsesItems depth true cs vs rest → vs.length < cs.length →
      (∀ v ∈ vs, v.Distinct) → ∀ a r, inner cs = .ok (a, r) ↔
        d.fromValue (.list vs) = .ok a ∧ r = rest) : d.Agrees := by
  refine agrees_of_parses (fun cs => by simp only [htext, opened, skipSpace_skipSpace]) ?_
  intro depth cs v rest hv hparses hdistinct
  have hother {c : Char} {tail : List Char} (hcs : cs = c :: tail) (hc : c ≠ '[')
      (hlist : ∀ vs, v ≠ .list vs) : d.Matches cs v rest := by
    obtain ⟨q, hq⟩ := hvalue v hlist
    refine matches_of_error (p := otherKind cs) ?_ hq
    simp only [htext, opened, hparses.solid.skipSpace_eq]
    rw [hcs]
    exact if_neg hc
  cases hparses with
  | list hitems hlength =>
    intro a r
    rw [htext]
    exact h hitems hlength (distinct_list.1 hdistinct) a r
  | number hc => exact hother rfl (Numeral.ne_of_starts hc (by decide)) nofun
  | _ => exact hother rfl (by decide) nofun

theorem Agrees.list (hd : d.Agrees) : (list d).Agrees := by
  apply agrees_of_opened
  · rfl
  · intro v hlist
    cases v with
    | list vs => exact absurd rfl (hlist vs)
    | _ => exact ⟨_, rfl⟩
  · intro depth cs rest vs h hlength hdistinct as r
    show itemsFrom d.part cs true [] cs = _ ↔ d.itemValues vs = _ ∧ _
    rw [itemsFrom_eq_ok hd h hdistinct hlength]
    constructor
    · rintro ⟨bs, hbs, rfl, rfl⟩
      exact ⟨hbs, rfl⟩
    · rintro ⟨has, rfl⟩
      exact ⟨as, has, rfl, rfl⟩

/-- The list is closed if no items are left. -/
theorem closeList_eq_ok_of_parses (h : ParsesItems depth first cs vs rest) :
    closeList cs = .ok ((), r) ↔ vs = [] ∧ r = rest := by
  rw [closeList_eq_ok]
  cases h with
  | close h =>
    rw [nextItem_eq_close.1 h, List.cons.injEq, eq_comm (a := r)]
    exact and_congr_left' (iff_of_true rfl rfl)
  | item h hv hvs =>
    obtain ⟨c, tail, hcs, hc, -, -⟩ := skipSpace_of_nextItem h
    rw [hcs, List.cons.injEq]
    exact iff_of_false (fun h => hc h.1) nofun

theorem itemText_of_close (h : nextItem first cs = .ok (.close rest)) :
    d.itemText first cs = .error .unfit := by
  rw [itemText, h]
  rfl

theorem itemText_of_more (h : nextItem first cs = .ok (.more cs₁)) :
    d.itemText first cs = d.part cs₁ := by
  rw [itemText, h]
  rfl

/-- The two items of a pair, read from an open list. -/
def pairItems (d : Decoder α) (e : Decoder β) : Reader (α × β) := fun cs => do
  let (a, cs) ← d.itemText true cs
  let (b, cs) ← e.itemText false cs
  let ((), cs) ← closeList cs
  .ok ((a, b), cs)

theorem pairItems_eq_ok (title lengthTitle : String) (hd : d.Agrees) (he : e.Agrees)
    (h : ParsesItems depth true cs vs rest) (hdistinct : ∀ v ∈ vs, v.Distinct) {p : α × β} :
    pairItems d e cs = .ok (p, r) ↔
      (pair title lengthTitle d e).fromValue (.list vs) = .ok p ∧ r = rest := by
  rw [pairItems]
  cases h with
  | close hnext =>
    rw [itemText_of_close hnext]
    exact ⟨nofun, fun h => nomatch h.1⟩
  | item hnext hv hvs =>
    obtain ⟨hdv, hdvs⟩ := List.forall_mem_cons.1 hdistinct
    rw [itemText_of_more hnext]
    simp only [bind_eq_ok, part_eq_ok, Prod.exists, hd hv hdv _ _]
    cases hvs with
    | close hnext' =>
      constructor
      · rintro ⟨a, _, ⟨-, rfl⟩, hb⟩
        rw [itemText_of_close hnext'] at hb
        obtain ⟨_, _, hb, -⟩ := hb
        contradiction
      · rintro ⟨hp, -⟩
        obtain ⟨_, -, hp⟩ := bind_eq_ok.1 hp
        contradiction
    | item hnext' hw hws =>
      obtain ⟨hdw, hdws⟩ := List.forall_mem_cons.1 hdvs
      constructor
      · rintro ⟨a, _, ⟨ha, rfl⟩, hb⟩
        rw [itemText_of_more hnext'] at hb
        simp only [part_eq_ok, he hw hdw _ _] at hb
        obtain ⟨b, _, ⟨hb, rfl⟩, ⟨⟩, _, hclose, ⟨⟩⟩ := hb
        obtain ⟨rfl, rfl⟩ := (closeList_eq_ok_of_parses hws).1 hclose
        exact ⟨bind_eq_ok.2 ⟨a, ha, bind_eq_ok.2 ⟨b, hb, rfl⟩⟩, rfl⟩
      · rintro ⟨hp, rfl⟩
        obtain ⟨a, ha, hp⟩ := bind_eq_ok.1 hp
        obtain ⟨b, hb, hp⟩ := bind_eq_ok.1 hp
        split at hp
        · rename_i hempty
          obtain ⟨⟩ := hp
          refine ⟨a, _, ⟨ha, rfl⟩, ?_⟩
          rw [itemText_of_more hnext']
          exact ⟨b, _, part_eq_ok.2 ((he hw hdw b _).2 ⟨hb, rfl⟩), (), r,
            (closeList_eq_ok_of_parses hws).2 ⟨List.isEmpty_iff.1 hempty, rfl⟩, rfl⟩
        · contradiction

theorem Agrees.pair (title lengthTitle : String) (hd : d.Agrees) (he : e.Agrees) :
    (pair title lengthTitle d e).Agrees := by
  apply agrees_of_opened 
  · rfl
  · intro v hlist
    cases v with
    | list vs => exact absurd rfl (hlist vs)
    | _ => exact ⟨_, rfl⟩
  · intro depth cs rest vs h hlength hdistinct p r
    exact pairItems_eq_ok title lengthTitle hd he h hdistinct

end Decoder

/-! ## Fields in a list -/

namespace Field

variable {f : Field α} {a : α} {ended : Bool}

theorem settle_eq_ok {ε : Type} {problem : ε} {found : Option α} :
    f.settle problem found = .ok a ↔ found.or f.absent = some a := by
  unfold settle
  split
  · rename_i b hb
    rw [hb, Except.ok.injEq, Option.some.injEq]
  · rename_i hnone
    rw [hnone]
    exact ⟨nofun, nofun⟩

/-- A list that ends before a field leaves it absent. -/
theorem itemText_of_close (h : nextItem first cs = .ok (.close rest)) :
    f.itemText first cs = .ok (a, ended, r) ↔ f.absent = some a ∧ ended = true ∧ r = rest := by
  rw [itemText, h]
  show (f.settle _ none).map _ = _ ↔ _
  simp only [map_eq_ok, settle_eq_ok, Option.none_or]
  constructor
  · rintro ⟨b, hb, ⟨⟩⟩
    exact ⟨hb, rfl, rfl⟩
  · rintro ⟨ha, rfl, rfl⟩
    exact ⟨a, ha, rfl⟩

theorem itemText_of_more (hf : f.decoder.Agrees) (h : nextItem first cs = .ok (.more cs₁))
    (hv : value depth cs₁ = .ok (v, rest)) (hdistinct : v.Distinct) :
    f.itemText first cs = .ok (a, ended, r) ↔
      f.decoder.fromValue v = .ok a ∧ ended = false ∧ r = rest := by
  rw [itemText, h]
  show (f.decoder.part cs₁).map _ = _ ↔ _
  simp only [map_eq_ok, Decoder.part_eq_ok, Prod.exists, hf hv hdistinct _ _]
  constructor
  · rintro ⟨b, _, ⟨hb, rfl⟩, ⟨⟩⟩
    exact ⟨hb, rfl, rfl⟩
  · rintro ⟨ha, rfl, rfl⟩
    exact ⟨a, r, ⟨ha, rfl⟩, rfl⟩

end Field

namespace Decoder

variable {f : Field α} {g : Field β} {p : α × β}

/-- The fields of a record in a list. The list may end before fields that may be left out. -/
theorem recordItems_eq_ok (title : String) (hf : f.decoder.Agrees) (hg : g.decoder.Agrees)
    (h : ParsesItems depth true cs vs rest) (hdistinct : ∀ v ∈ vs, v.Distinct) :
    recordItems f g cs = .ok (p, r) ↔ recordValues title f g vs = .ok p ∧ r = rest := by
  rw [recordItems]
  cases h with
  | close hnext =>
    simp only [recordValues, bind_eq_ok, Prod.exists, Field.itemText_of_close hnext,
      Field.settle_eq_ok, Option.none_or]
    constructor
    · rintro ⟨a, _, _, ⟨ha, rfl, rfl⟩, htext⟩
      obtain ⟨b, hb, ⟨⟩⟩ := map_eq_ok.1 htext
      exact ⟨⟨a, ha, b, Field.settle_eq_ok.1 hb, rfl⟩, rfl⟩
    · rintro ⟨⟨a, ha, b, hb, ⟨⟩⟩, rfl⟩
      exact ⟨a, _, _, ⟨ha, rfl, rfl⟩, map_eq_ok.2 ⟨b, Field.settle_eq_ok.2 hb, rfl⟩⟩
  | item hnext hv hvs =>
    obtain ⟨hdv, hdvs⟩ := List.forall_mem_cons.1 hdistinct
    simp only [bind_eq_ok, Prod.exists, Field.itemText_of_more hf hnext hv hdv]
    cases hvs with
    | close hnext' =>
      simp only [recordValues, bind_eq_ok, Field.settle_eq_ok, Option.none_or]
      constructor
      · rintro ⟨a, _, _, ⟨ha, rfl, rfl⟩, htext⟩
        obtain ⟨⟨b, _, _⟩, hitem, hp⟩ := bind_eq_ok.1 htext
        obtain ⟨hb, rfl, rfl⟩ := (Field.itemText_of_close hnext').1 hitem
        obtain ⟨⟩ := hp
        exact ⟨⟨a, ha, b, hb, rfl⟩, rfl⟩
      · rintro ⟨⟨a, ha, b, hb, ⟨⟩⟩, rfl⟩
        exact ⟨a, _, _, ⟨ha, rfl, rfl⟩,
          bind_eq_ok.2 ⟨(b, true, r), (Field.itemText_of_close hnext').2 ⟨hb, rfl, rfl⟩, rfl⟩⟩
    | item hnext' hw hws =>
      obtain ⟨hdw, hdws⟩ := List.forall_mem_cons.1 hdvs
      simp only [recordValues, bind_eq_ok]
      constructor
      · rintro ⟨a, _, _, ⟨ha, rfl, rfl⟩, htext⟩
        obtain ⟨⟨b, _, _⟩, hitem, hp⟩ := bind_eq_ok.1 htext
        obtain ⟨hb, rfl, rfl⟩ := (Field.itemText_of_more hg hnext' hw hdw).1 hitem
        obtain ⟨⟨⟨⟩, _⟩, hclose, ⟨⟩⟩ := bind_eq_ok.1 hp
        obtain ⟨rfl, rfl⟩ := (closeList_eq_ok_of_parses hws).1 hclose
        exact ⟨⟨a, ha, b, hb, rfl⟩, rfl⟩
      · rintro ⟨⟨a, ha, b, hb, hp⟩, rfl⟩
        split at hp
        · rename_i hempty
          obtain ⟨⟩ := hp
          refine ⟨a, _, _, ⟨ha, rfl, rfl⟩, bind_eq_ok.2
            ⟨_, (Field.itemText_of_more hg hnext' hw hdw).2 ⟨hb, rfl, rfl⟩, bind_eq_ok.2 ⟨((), r),
              (closeList_eq_ok_of_parses hws).2 ⟨List.isEmpty_iff.1 hempty, rfl⟩, rfl⟩⟩⟩
        · contradiction

end Decoder

/-! ## Fields in an object -/

theorem lookup_cons (name : String) (m : String × Json) (ms : List (String × Json)) :
    lookup name (m :: ms) = (lookup name ms).or (if m.1 = name then some m.2 else none) := by
  rw [lookup, List.reverse_cons, List.find?_append, Option.map_or, lookup]
  by_cases h : m.1 = name <;> simp [h]

theorem lookup_eq_none {name : String} (h : name ∉ ms.map Prod.fst) : lookup name ms = none := by
  induction ms with
  | nil => rfl
  | cons m ms ih =>
    rw [List.map_cons, List.mem_cons, not_or] at h
    rw [lookup_cons, ih h.2, if_neg (Ne.symm h.1), Option.none_or]

namespace Field

variable {f : Field α} {found : Option α} {m : String × Json}

/-- What is known of a field after one more member. -/
def update (f : Field α) (found : Option α) (m : String × Json) : Except Mismatch (Option α) :=
  if m.1 = f.name then (f.decoder.fromValue m.2).map some else .ok found

theorem update_of_ne (h : m.1 ≠ f.name) : f.update found m = .ok found := if_neg h

/-- Other members do not matter to a field. -/
theorem foldlM_update_of_notMem (h : f.name ∉ ms.map Prod.fst) :
    ms.foldlM f.update found = .ok found := by
  induction ms with
  | nil => rfl
  | cons m ms ih =>
    rw [List.map_cons, List.mem_cons, not_or] at h
    rw [List.foldlM_cons, update_of_ne (Ne.symm h.1)]
    exact ih h.2

/-- Unless a name is repeated, a field is found in one walk over the members. -/
theorem foldlM_update (h : (ms.map Prod.fst).Nodup) : ms.foldlM f.update none = f.find ms := by
  induction ms with
  | nil => rfl
  | cons m ms ih =>
    rw [List.map_cons, List.nodup_cons] at h
    rw [List.foldlM_cons, find, lookup_cons]
    by_cases hm : m.1 = f.name
    · rw [update, if_pos hm, lookup_eq_none (hm ▸ h.1), if_pos hm, Option.none_or]
      show Except.map some _ >>= _ = Except.map some _
      cases f.decoder.fromValue m.2 with
      | error e => rfl
      | ok a => exact foldlM_update_of_notMem (hm ▸ h.1)
    · rw [update_of_ne hm, if_neg hm, Option.or_none]
      exact ih h.2

end Field

namespace Decoder

variable {d : Decoder α} {a : α} {f : Field α} {g : Field β} {found found' : Option α × Option β}

/-- The two fields are found apart from each other. -/
theorem recordFields_eq_ok_iff : recordFields f g ms = .ok found ↔
    f.find ms = .ok found.1 ∧ g.find ms = .ok found.2 := by
  unfold recordFields
  split
  · simp only [bind_eq_ok]
    constructor
    · rintro ⟨a, ha, b, hb, ⟨⟩⟩
      exact ⟨ha, hb⟩
    · rintro ⟨ha, hb⟩
      exact ⟨_, ha, _, hb, rfl⟩
  · simp only [bind_eq_ok]
    constructor
    · rintro ⟨b, hb, a, ha, ⟨⟩⟩
      exact ⟨ha, hb⟩
    · rintro ⟨ha, hb⟩
      exact ⟨_, hb, _, ha, rfl⟩

/-- A member tells what it tells in the value, unless its field has been found before. -/
theorem recordMember_eq_ok (hne : f.name ≠ g.name) (hf : f.decoder.Agrees) (hg : g.decoder.Agrees)
    (hcolon : colon cs = .ok ((), cs₁)) (hv : value depth cs₁ = .ok (v, rest))
    (hdistinct : v.Distinct) (hfirst : k = f.name → found.1 = none)
    (hsecond : k = g.name → found.2 = none) :
    recordMember f g found k cs = .ok (found', r) ↔ f.update found.1 (k, v) = .ok found'.1 ∧
      g.update found.2 (k, v) = .ok found'.2 ∧ r = rest := by
  unfold recordMember
  by_cases hkf : k = f.name
  · have hkg : k ≠ g.name := hkf ▸ hne
    rw [if_pos hkf, hfirst hkf, hcolon, Field.update, if_pos hkf, Field.update_of_ne hkg]
    show (f.decoder.part cs₁ >>= _) = _ ↔ _
    simp only [bind_eq_ok, map_eq_ok, part_eq_ok, Prod.exists, hf hv hdistinct _ _]
    constructor
    · rintro ⟨a, _, ⟨ha, rfl⟩, ⟨⟩⟩
      exact ⟨⟨a, ha, rfl⟩, rfl, rfl⟩
    · rintro ⟨⟨a, ha, hfound⟩, hsame, rfl⟩
      exact ⟨a, r, ⟨ha, rfl⟩, by rw [hfound, Except.ok.inj hsame]⟩
  · rw [if_neg hkf, Field.update_of_ne hkf]
    by_cases hkg : k = g.name
    · rw [if_pos hkg, hsecond hkg, hcolon, Field.update, if_pos hkg]
      show (g.decoder.part cs₁ >>= _) = _ ↔ _
      simp only [bind_eq_ok, map_eq_ok, part_eq_ok, Prod.exists, hg hv hdistinct _ _]
      constructor
      · rintro ⟨b, _, ⟨hb, rfl⟩, ⟨⟩⟩
        exact ⟨rfl, ⟨b, hb, rfl⟩, rfl⟩
      · rintro ⟨hsame, ⟨b, hb, hfound⟩, rfl⟩
        exact ⟨b, r, ⟨hb, rfl⟩, by rw [hfound, Except.ok.inj hsame]⟩
    · rw [if_neg hkg, hcolon, Field.update_of_ne hkg]
      show (skip cs₁ >>= _) = _ ↔ _
      rw [skip_of_value hv]
      constructor
      · rintro ⟨⟩
        exact ⟨rfl, rfl, rfl⟩
      · rintro ⟨hsame, hsame', rfl⟩
        obtain rfl : found = found' := Prod.ext (Except.ok.inj hsame) (Except.ok.inj hsame')
        rfl

/-- The members of an object tell the two fields apart from each other. -/
theorem membersFrom_eq_ok (hne : f.name ≠ g.name) (hf : f.decoder.Agrees) (hg : g.decoder.Agrees)
    (h : ParsesMembers depth first cs ms rest) (hnames : (ms.map Prod.fst).Nodup)
    (hdistinct : ∀ m ∈ ms, m.2.Distinct) (hbound : ms.length < bound.length)
    (hfirst : f.name ∈ ms.map Prod.fst → found.1 = none)
    (hsecond : g.name ∈ ms.map Prod.fst → found.2 = none) :
    membersFrom Quoted.read (recordMember f g) bound first found cs = .ok (found', r) ↔
      ms.foldlM f.update found.1 = .ok found'.1 ∧ ms.foldlM g.update found.2 = .ok found'.2 ∧
        r = rest := by
  induction h generalizing bound found with
  | close h =>
    obtain ⟨b, bound, rfl⟩ := List.exists_cons_of_length_pos hbound
    rw [membersFrom, h]
    constructor
    · rintro ⟨⟩
      exact ⟨rfl, rfl, rfl⟩
    · rintro ⟨hsame, hsame', rfl⟩
      obtain rfl : found = found' := Prod.ext (Except.ok.inj hsame) (Except.ok.inj hsame')
      rfl
  | @member first cs cs₁ cs₂ cs₃ cs₄ rest k v ms h hk hcolon hv hms ih =>
    obtain ⟨b, bound, rfl⟩ := List.exists_cons_of_length_pos (Nat.zero_lt_of_lt hbound)
    obtain ⟨hdv, hdms⟩ := List.forall_mem_cons.1 hdistinct
    rw [List.map_cons, List.nodup_cons] at hnames
    have hmember (next : Option α × Option β) (r : List Char) :
        recordMember f g found k cs₂ = .ok (next, r) ↔ f.update found.1 (k, v) = .ok next.1 ∧
          g.update found.2 (k, v) = .ok next.2 ∧ r = cs₄ :=
      recordMember_eq_ok hne hf hg hcolon hv hdv (fun he => hfirst (he ▸ List.mem_cons_self))
        fun he => hsecond (he ▸ List.mem_cons_self)
    -- A field that is still to come has not been found: this member has another name.
    have hfirst' {next : Option α} (hnext : f.update found.1 (k, v) = .ok next)
        (hmem : f.name ∈ ms.map Prod.fst) : next = none := by
      rw [Field.update_of_ne fun he => hnames.1 (he ▸ hmem)] at hnext
      exact Except.ok.inj hnext ▸ hfirst (List.mem_cons_of_mem _ hmem)
    have hsecond' {next : Option β} (hnext : g.update found.2 (k, v) = .ok next)
        (hmem : g.name ∈ ms.map Prod.fst) : next = none := by
      rw [Field.update_of_ne fun he => hnames.1 (he ▸ hmem)] at hnext
      exact Except.ok.inj hnext ▸ hsecond (List.mem_cons_of_mem _ hmem)
    rw [membersFrom, h, List.foldlM_cons, List.foldlM_cons]
    show (Quoted.read cs₁ >>= _) = _ ↔ _
    rw [hk]
    show (recordMember f g found k cs₂ >>= _) = _ ↔ _
    simp only [bind_eq_ok, Prod.exists, hmember]
    constructor
    · rintro ⟨a, b', _, ⟨ha, hb, rfl⟩, hrest⟩
      obtain ⟨has, hbs, rfl⟩ := (ih hnames.2 hdms (Nat.lt_of_succ_lt_succ hbound) (hfirst' ha)
        (hsecond' hb)).1 hrest
      exact ⟨⟨a, ha, has⟩, ⟨b', hb, hbs⟩, rfl⟩
    · rintro ⟨⟨a, ha, has⟩, ⟨b', hb, hbs⟩, rfl⟩
      exact ⟨a, b', cs₄, ⟨ha, hb, rfl⟩, (ih hnames.2 hdms (Nat.lt_of_succ_lt_succ hbound)
        (hfirst' ha) (hsecond' hb)).2 ⟨has, hbs, rfl⟩⟩

theorem Agrees.record (title : String) (hne : f.name ≠ g.name) (hf : f.decoder.Agrees)
    (hg : g.decoder.Agrees) : (record title f g).Agrees := by
  refine agrees_of_parses (fun cs => by simp only [Decoder.record, skipSpace_skipSpace]) ?_
  intro depth cs v rest hv h hdistinct
  cases h with
  | list h hlength =>
    exact fun p r => recordItems_eq_ok title hf hg h (distinct_list.1 hdistinct)
  | @object depth cs _ ms h hlength =>
    obtain ⟨hnames, hdistinct⟩ := distinct_object.1 hdistinct
    have hmembers (found : Option α × Option β) (r : List Char) :
        members Quoted.read (recordMember f g) (none, none) cs = .ok (found, r) ↔
          f.find ms = .ok found.1 ∧ g.find ms = .ok found.2 ∧ r = rest := by
      rw [← Field.foldlM_update hnames, ← Field.foldlM_update hnames]
      exact membersFrom_eq_ok hne hf hg h hnames hdistinct hlength (fun _ => rfl) fun _ => rfl
    rintro p r
    show (members Quoted.read (recordMember f g) (none, none) cs >>= _) = _ ↔
      recordFields f g ms >>= _ = _ ∧ _
    simp only [bind_eq_ok, Prod.exists, hmembers, recordFields_eq_ok_iff, Field.settle_eq_ok]
    constructor
    · rintro ⟨o, o', _, ⟨ho, ho', rfl⟩, a, ha, b, hb, ⟨⟩⟩
      exact ⟨⟨o, o', ⟨ho, ho'⟩, a, ha, b, hb, rfl⟩, rfl⟩
    · rintro ⟨⟨o, o', ⟨ho, ho'⟩, a, ha, b, hb, ⟨⟩⟩, rfl⟩
      exact ⟨o, o', r, ⟨ho, ho', rfl⟩, a, ha, b, hb, rfl⟩
  | @number _ c cs _ n hc h =>
    refine matches_of_error (p := otherKind (c :: cs)) ?_ rfl
    simp only [Decoder.record, (Solid.cons (Numeral.isSpace_of_starts hc)).skipSpace_eq]
    rw [if_neg (Numeral.ne_of_starts hc (by decide)), if_neg (Numeral.ne_of_starts hc (by decide))]
  | _ => exact matches_of_error rfl rfl

/-! ## Whole texts -/

/-- A decoder gets from a text what it gets from the value of the text. -/
theorem Agrees.ofText_eq_ok (h : d.Agrees) {text : String} (hread : Json.read text = .ok v)
    (hdistinct : v.Distinct) : d.ofText text = .ok a ↔ d.fromValue v = .ok a := by
  obtain ⟨⟨v, rest⟩, hv, hrest⟩ := bind_eq_ok.1 hread
  dsimp only at hrest
  split at hrest
  · rename_i hblank
    obtain ⟨⟩ := hrest
    show (d.fromText _ >>= _) = _ ↔ _
    simp only [bind_eq_ok, Prod.exists, h hv hdistinct _ _]
    constructor
    · rintro ⟨a, _, ⟨ha, rfl⟩, hend⟩
      rw [hblank] at hend
      exact Except.ok.inj hend ▸ ha
    · intro ha
      exact ⟨a, rest, ⟨ha, rfl⟩, by rw [hblank]⟩
  · contradiction

end Decoder

end CouplingMap.Json
