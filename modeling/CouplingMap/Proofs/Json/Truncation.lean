import CouplingMap.Proofs.Json.Crop
import CouplingMap.Proofs.Json.Decoder

/-!
# What decoders make of cut texts

A text of a value that is cut anywhere is refused as one that ends too early, and as nothing else.
Only a number that is cut may be read as another number, and then there is nothing left for the
reader of what follows it.

* `Decoder.Stops`: a decoder finds that the text of a value is cut, wherever it is. There is one
  rule for each way to make a decoder.
* `Decoder.Drains`: the same for values that may be numbers.
* `bind_stops`: two steps of a reader on a text that is cut in the first or in the second of them.
* `Decoder.Stops.ofText`: a text in either layout that is cut.
-/

namespace CouplingMap.Json

variable {α β γ : Type} {p b cs ds rest bound : List Char} {k : String} {v w : Json} {first : Bool}

/-! ## Steps of a reader -/

/-- Two steps stop on a text that is cut in the first or in the second of them, if the second stops
on nothing. -/
theorem bind_stops {read : Reader α} {next : α × List Char → Except ReadError β} {a : α}
    {us vs : List Char} (h : Truncates p (us ++ vs)) (hfirst : ∀ q, Truncates q us → Drained (read q))
    (hread : ∀ q, Truncates q vs → read (us ++ q) = .ok (a, q))
    (hnext : ∀ q, Truncates q vs → next (a, q) = .error .ended)
    (hnil : ∀ a, next (a, []) = .error .ended) : read p >>= next = .error .ended := by
  rcases truncates_append.1 h with h | ⟨q, rfl, hq⟩
  · rcases hfirst p h with hp | ⟨a', hp⟩
    · rw [hp]
      rfl
    · rw [hp]
      exact hnil a'
  · rw [hread q hq]
    exact hnext q hq

/-- Behind a separator and blanks a text that is cut has nothing, or the item starts there. -/
theorem nextItem_of_truncates (hb : Blank b) (hv : Spells v cs)
    (h : Truncates p (separator first ++ (b ++ (cs ++ rest)))) :
    nextItem first p = .error .ended ∨
      ∃ q, nextItem first p = .ok (.more q) ∧ Truncates q (cs ++ rest) := by
  obtain ⟨c, ds, rfl, hc, hclose⟩ := hv.head
  cases first with
  | true =>
    rcases hb.skipSpace_truncates hc h with hp | ⟨q, hp, hq⟩
    · exact Or.inl (by rw [nextItem, hp])
    · refine Or.inr ⟨c :: q, ?_, hq.cons⟩
      rw [nextItem, hp]
      simp only [hclose, if_false, if_true]
  | false =>
    rcases truncates_cons.1 h with rfl | ⟨r, rfl, hr⟩
    · exact Or.inl rfl
    have hcomma : skipSpace (',' :: r) = ',' :: r := rfl
    rcases hb.skipSpace_truncates hc hr with hp | ⟨q, hp, hq⟩
    · refine Or.inl ?_
      simp [nextItem, hcomma, hp]
    · refine Or.inr ⟨c :: q, ?_, hq.cons⟩
      simp [nextItem, hcomma, hp, hclose]

theorem nextItem_of_truncates_close (hb : Blank b) (h : Truncates p (b ++ [']'])) :
    nextItem first p = .error .ended := by
  rw [nextItem, hb.skipSpace_truncates_singleton (by decide) h]

theorem closeList_of_truncates (hb : Blank b) (h : Truncates p (b ++ [']'])) :
    closeList p = .error .ended := by
  rw [closeList, hb.skipSpace_truncates_singleton (by decide) h]

/-- Behind a separator and blanks a text that is cut has nothing, or the name of a member. -/
theorem nextMember_of_truncates (hb : Blank b)
    (h : Truncates p (separator first ++ (b ++ '"' :: rest))) :
    nextMember first p = .error .ended ∨
      ∃ q, nextMember first p = .ok (.more q) ∧ Truncates q rest := by
  cases first with
  | true =>
    rcases hb.skipSpace_truncates (by decide) h with hp | ⟨q, hp, hq⟩
    · exact Or.inl (by rw [nextMember, hp])
    · exact Or.inr ⟨q, by simp [nextMember, hp], hq⟩
  | false =>
    rcases truncates_cons.1 h with rfl | ⟨r, rfl, hr⟩
    · exact Or.inl rfl
    have hcomma : skipSpace (',' :: r) = ',' :: r := rfl
    rcases hb.skipSpace_truncates (by decide) hr with hp | ⟨q, hp, hq⟩
    · exact Or.inl (by simp [nextMember, hcomma, hp])
    · exact Or.inr ⟨q, by simp [nextMember, hcomma, hp], hq⟩

theorem nextMember_of_truncates_close (hb : Blank b) (h : Truncates p (b ++ ['}'])) :
    nextMember first p = .error .ended := by
  rw [nextMember, hb.skipSpace_truncates_singleton (by decide) h]

/-! ## Walks over a text that is cut -/

section Walks

variable {σ : Type} {member : σ → String → Reader σ} {s : σ}

theorem itemsFrom_nil {item : Reader α} {done : List α} :
    itemsFrom item bound first done [] = .error .ended := by
  cases bound <;> rfl

theorem membersFrom_nil : membersFrom Quoted.read member bound first s [] = .error .ended := by
  cases bound <;> rfl

/-- A member that is cut in its name stops the walk. Otherwise this is left to the action. -/
theorem membersFrom_of_truncates (hb : Blank b)
    (h : Truncates p (separator first ++ (b ++ (Quoted.write k ++ rest))))
    (hmember : ∀ bound q, Truncates q rest →
      (member s k q >>= fun r => membersFrom Quoted.read member bound false r.1 r.2) =
        .error .ended) :
    membersFrom Quoted.read member bound first s p = .error .ended := by
  cases bound with
  | nil => rfl
  | cons c bound =>
    rw [Quoted.write_append] at h
    rw [membersFrom]
    rcases nextMember_of_truncates hb h with hp | ⟨q, hp, hq⟩
    · rw [hp]
      rfl
    · rw [hp]
      show (Quoted.read q >>= _) = _
      rw [← List.singleton_append, ← List.append_assoc] at hq
      rcases truncates_append.1 hq with hq | ⟨r, rfl, hr⟩
      · rw [Quoted.read_of_truncates hq]
        rfl
      · rw [List.append_assoc, List.singleton_append, Quoted.read_write]
        exact hmember bound r hr

theorem membersFrom_of_truncates_close (hb : Blank b) (h : Truncates p (b ++ ['}'])) :
    membersFrom Quoted.read member bound first s p = .error .ended := by
  cases bound with
  | nil => rfl
  | cons c bound =>
    rw [membersFrom, nextMember_of_truncates_close hb h]
    rfl

end Walks

namespace Decoder

variable {d : Decoder α} {e : Decoder β} {a : α} {c : β}

/-- A decoder finds that the text of a value is cut. -/
def Stops (d : Decoder α) (v : Json) : Prop :=
  ∀ ⦃b cs p : List Char⦄, Blank b → Spells v cs → Truncates p (b ++ cs) →
    d.fromText p = .error .ended

/-- A decoder finds that the text of a value is cut, or it takes all that is left for a value. -/
def Drains (d : Decoder α) (v : Json) : Prop :=
  ∀ ⦃b cs p : List Char⦄, Blank b → Spells v cs → Truncates p (b ++ cs) → Drained (d.fromText p)

theorem Stops.drains (h : d.Stops v) : d.Drains v := fun _ _ _ hb hv hp => Or.inl (h hb hv hp)

/-- A part of a value is cut like a value. -/
theorem Drains.part (h : d.Drains v) (hb : Blank b) (hv : Spells v cs)
    (hp : Truncates p (b ++ cs)) : Drained (d.part p) := by
  rcases h hb hv hp with heq | ⟨a, heq⟩
  · exact Or.inl (congrArg (Except.mapError ReadError.placed) heq)
  · exact Or.inr ⟨a, congrArg (Except.mapError ReadError.placed) heq⟩

/-! ## Numbers -/

/-- A number that is cut has no end, or what is left of it has to be accepted. -/
theorem drains_number {expected : String} {accept : Number → Except Mismatch α} {t : Numeral}
    {n : Number} (ht : t.WellFormed) (hwrite : t.chars = n.write)
    (h : ∀ t', t.Crop t' → ∃ m a, t'.number = .ok m ∧ accept m = .ok a) :
    (number expected accept).Drains (.number n) := by
  intro b cs p hb hv hp
  cases hv with
  | number =>
    obtain ⟨c, ds, heq, hstarts⟩ := Numeral.starts_chars ht
    have hc : isSpace c = false := (head_of_starts hstarts).1
    rw [← hwrite, heq] at hp
    rcases hb.skipSpace_truncates hc hp with hp | ⟨q, hp, hq⟩
    · exact Or.inl (by simp only [number, hp])
    have hcut : Truncates (c :: q) t.chars := heq ▸ hq.cons
    simp only [number, hp, hstarts, if_true]
    rcases Numeral.scan_of_truncates ht hcut with hscan | ⟨t', hcrop, hchars⟩
    · refine Or.inl ?_
      rw [Numeral.read, hscan]
      rfl
    · obtain ⟨m, a, hm, ha⟩ := h t' hcrop
      have hread := Numeral.read_chars (hcrop.wellFormed ht) Numeral.Ends.nil
      rw [List.append_nil, hchars, hm] at hread
      refine Or.inr ⟨a, bind_eq_ok.2 ⟨_, hread, ?_⟩⟩
      simp only [ha]

/-- A coordinate that is cut is another coordinate. -/
theorem drains_uint32 (i : UInt32) : uint32.Drains (.number (.integer i.toNat)) := by
  refine drains_number (Numeral.wellFormed_natural i.toNat) (Numeral.chars_natural i.toNat) ?_
  intro t' hcrop
  obtain ⟨m, hle, hm⟩ :=
    Numeral.exists_number_of_crop_natural (Nat.lt_trans i.toNat_lt (by decide)) hcrop
  have hlt : m < UInt32.size := Nat.lt_of_le_of_lt hle i.toNat_lt
  exact ⟨_, UInt32.ofNat m, hm, if_pos ⟨Int.natCast_nonneg m, Int.ofNat_lt.2 hlt⟩⟩

/-- A double that is cut is another double. -/
theorem drains_double {x : Binary64} (hfinite : x.isFinite = true) :
    double.Drains (.number (.double x)) := by
  refine drains_number (Numeral.wellFormed_ofDouble x) (Numeral.chars_ofDouble hfinite) ?_
  intro t' hcrop
  obtain ⟨n, hn⟩ := Numeral.exists_number_of_crop hfinite hcrop
  exact ⟨n, _, hn, rfl⟩

/-! ## Strings -/

theorem stops_string (s : String) : string.Stops (.string s) := by
  intro b cs p hb hv hp
  cases hv with
  | string =>
    rw [← List.append_nil (Quoted.write s), Quoted.write_append] at hp
    unfold string
    dsimp only
    rcases hb.skipSpace_truncates (by decide) hp with hp | ⟨q, hp, hq⟩
    · rw [hp]
    · rw [hp]
      exact Quoted.read_of_truncates hq

/-! ## Lists and pairs -/

/-- What is inside of a list is left to the reader of it. -/
theorem opened_of_truncates {inner : Reader α} (hb : Blank b) (hp : Truncates p (b ++ '[' :: cs))
    (h : ∀ q, Truncates q cs → inner q = .error .ended) : opened inner p = .error .ended := by
  rcases hb.skipSpace_truncates (by decide) hp with hp | ⟨q, hp, hq⟩
  · rw [opened, hp]
  · rw [opened, hp]
    exact h q hq

/-- A part of a value and what follows it, cut in the one or the other. -/
theorem part_bind_stops {next : α × List Char → Except ReadError γ} (hreads : d.Reads v a)
    (hdrains : d.Drains v) (hb : Blank b) (hv : Spells v cs) (hends : Numeral.Ends rest)
    (hp : Truncates p (b ++ (cs ++ rest)))
    (hnext : ∀ q, Truncates q rest → next (a, q) = .error .ended)
    (hnil : ∀ a, next (a, []) = .error .ended) : d.part p >>= next = .error .ended := by
  rw [← List.append_assoc] at hp
  refine bind_stops hp (fun q hq => hdrains.part hb hv hq) (fun q hq => ?_) hnext hnil
  rw [List.append_assoc]
  exact hreads.part hb hv (hq.ends hends)

/-- The items of a list that is cut are read up to the cut. -/
theorem itemsFrom_of_truncates {vs : List Json} {as : List α} {done : List α}
    (hreads : List.Forall₂ d.Reads vs as) (hdrains : ∀ v ∈ vs, d.Drains v)
    (hcs : SpellsItems first vs cs) (hp : Truncates p cs) :
    itemsFrom d.part bound first done p = .error .ended := by
  induction hreads generalizing first done bound cs p with
  | nil =>
    cases hcs with
    | close hb =>
      cases bound with
      | nil => rfl
      | cons c bound =>
        rw [itemsFrom, nextItem_of_truncates_close hb hp]
        rfl
  | @cons v a vs as ha has ih =>
    obtain ⟨hdrain, hdrains⟩ := List.forall_mem_cons.1 hdrains
    cases hcs with
    | item hb hv hxs =>
      cases bound with
      | nil => rfl
      | cons c bound =>
        rw [itemsFrom]
        rcases nextItem_of_truncates hb hv hp with hp | ⟨q, hp, hq⟩
        · rw [hp]
          rfl
        · rw [hp]
          exact part_bind_stops ha hdrain .nil hv hxs.ends_nil hq (fun r hr => ih hdrains hxs hr)
            fun _ => itemsFrom_nil

/-- A list stops if its items may be cut. -/
theorem Stops.list {vs : List Json} {as : List α} (hreads : List.Forall₂ d.Reads vs as)
    (hdrains : ∀ v ∈ vs, d.Drains v) : (list d).Stops (.list vs) := by
  intro b cs p hb hv hp
  cases hv with
  | list hxs => exact opened_of_truncates hb hp fun q hq =>
      itemsFrom_of_truncates hreads hdrains hxs hq

/-- A list of forms stops if the items are read back and may be cut. -/
theorem Stops.list_map {form : α → Json} {as : List α} (hreads : ∀ a ∈ as, d.Reads (form a) a)
    (hdrains : ∀ a ∈ as, d.Drains (form a)) : (Decoder.list d).Stops (.list (as.map form)) :=
  .list (List.forall₂_map_left_iff.2 (List.forall₂_same.2 hreads)) (List.forall_mem_map.2 hdrains)

/-- An item and what follows it, cut in the one or the other. -/
theorem itemText_bind_stops {next : α × List Char → Except ReadError γ} (hreads : d.Reads v a)
    (hdrains : d.Drains v) (hb : Blank b) (hv : Spells v cs) (hends : Numeral.Ends rest)
    (hp : Truncates p (separator first ++ (b ++ (cs ++ rest))))
    (hnext : ∀ q, Truncates q rest → next (a, q) = .error .ended)
    (hnil : ∀ a, next (a, []) = .error .ended) : d.itemText first p >>= next = .error .ended := by
  rw [itemText]
  rcases nextItem_of_truncates hb hv hp with hp | ⟨q, hp, hq⟩
  · rw [hp]
    rfl
  · rw [hp]
    exact part_bind_stops hreads hdrains .nil hv hends hq hnext hnil

/-- A pair stops if both of its items may be cut. -/
theorem Stops.pair (title lengthTitle : String) (hd : d.Reads v a) (he : e.Reads w c)
    (hdd : d.Drains v) (hed : e.Drains w) : (pair title lengthTitle d e).Stops (.list [v, w]) := by
  intro b cs p hb hvw hp
  cases hvw with
  | list hxs =>
    refine opened_of_truncates hb hp fun q hq => ?_
    cases hxs with
    | item hb₁ hv hxs =>
      refine itemText_bind_stops hd hdd hb₁ hv hxs.ends_nil hq (fun r hr => ?_) fun _ => rfl
      cases hxs with
      | item hb₂ hw hxs =>
        refine itemText_bind_stops he hed hb₂ hw hxs.ends_nil hr (fun u hu => ?_) fun _ => rfl
        cases hxs with
        | close hb₃ =>
          dsimp only
          rw [closeList_of_truncates hb₃ hu]
          rfl

/-! ## Decoders made of one other -/

/-- A list that may be null stops if it is one. -/
theorem Stops.orNull {vs : List Json} (h : d.Stops (.list vs)) : (orNull d).Stops (.list vs) := by
  intro b cs p hb hv hp
  have hstops := @h [] cs
  cases hv with
  | list hxs =>
    rw [Decoder.orNull]
    dsimp only
    rcases hb.skipSpace_truncates (by decide) hp with hp | ⟨q, hp, hq⟩
    · rw [hp]
    · rw [hp]
      exact congrArg (Except.map _) (hstops .nil (.list hxs) hq.cons)

/-- A rule is not reached. -/
theorem Stops.check (rule : α → Except String β) (h : d.Stops v) : (check rule d).Stops v :=
  fun _ _ _ hb hv hp => congrArg (· >>= _) (h hb hv hp)

theorem Stops.map (f : α → β) (h : d.Stops v) : (map f d).Stops v :=
  fun _ _ _ hb hv hp => congrArg (Except.map _) (h hb hv hp)

/-! ## Records -/

/-- What stands behind the name of a member, and what follows it, cut in the one or the other. -/
theorem colon_bind_stops {σ : Type} (f : α → σ) {next : σ × List Char → Except ReadError γ}
    (hreads : d.Reads v a) (hdrains : d.Drains v) (hb : Blank b) (hv : Spells v cs)
    (hends : Numeral.Ends rest) (hp : Truncates p (':' :: (b ++ (cs ++ rest))))
    (hnext : ∀ q, Truncates q rest → next (f a, q) = .error .ended)
    (hnil : ∀ s, next (s, []) = .error .ended) :
    (do
      let ((), cs) ← colon p
      let (a, cs) ← d.part cs
      .ok (f a, cs)) >>= next = .error .ended := by
  rcases truncates_cons.1 hp with rfl | ⟨q, rfl, hq⟩
  · rfl
  · show ((d.part q >>= fun r => .ok (f r.1, r.2)) >>= next) = _
    rw [bind_assoc]
    exact part_bind_stops hreads hdrains hb hv hends hq hnext fun _ => hnil _

/-- The members of an object that is cut are read up to the cut. -/
theorem membersFrom_record_of_truncates {f : Field α} {g : Field β} (hne : f.name ≠ g.name)
    (hf : f.decoder.Reads v a) (hg : g.decoder.Reads w c) (hfd : f.decoder.Drains v)
    (hgd : g.decoder.Drains w) (hms : SpellsMembers true [(f.name, v), (g.name, w)] cs)
    (hp : Truncates p cs) :
    membersFrom Quoted.read (recordMember f g) bound true (none, none) p = .error .ended := by
  cases hms with
  | member hb₁ ha₁ hv hms =>
    refine membersFrom_of_truncates hb₁ hp fun bound q hq => ?_
    rw [recordMember, if_pos rfl]
    refine colon_bind_stops (fun a => (some a, none)) hf hfd ha₁ hv hms.ends_nil hq (fun r hr => ?_)
      fun _ => membersFrom_nil
    cases hms with
    | member hb₂ ha₂ hw hms =>
      refine membersFrom_of_truncates hb₂ hr fun bound u hu => ?_
      rw [recordMember, if_neg hne.symm, if_pos rfl]
      refine colon_bind_stops (fun c => (some a, some c)) hg hgd ha₂ hw hms.ends_nil hu
        (fun x hx => ?_) fun _ => membersFrom_nil
      cases hms with
      | close hb₃ => exact membersFrom_of_truncates_close hb₃ hx

/-- An object of the two fields of a record, in order, stops if both fields may be cut. -/
theorem Stops.record (title : String) (f : Field α) (g : Field β) (hne : f.name ≠ g.name)
    (hf : f.decoder.Reads v a) (hg : g.decoder.Reads w c) (hfd : f.decoder.Drains v)
    (hgd : g.decoder.Drains w) :
    (record title f g).Stops (.object [(f.name, v), (g.name, w)]) := by
  intro b cs p hb hvw hp
  cases hvw with
  | object hms =>
    rw [Decoder.record]
    dsimp only
    rcases hb.skipSpace_truncates (by decide) hp with hp | ⟨q, hp, hq⟩
    · rw [hp]
    · rw [hp]
      have hmembers : members Quoted.read (recordMember f g) (none, none) q = .error .ended :=
        membersFrom_record_of_truncates hne hf hg hfd hgd hms hq
      exact congrArg (· >>= _) hmembers

/-! ## Whole texts -/

/-- The text of a value in either layout is refused if it is cut. -/
theorem Stops.ofText (h : d.Stops v) {lines : Bool} {k : Nat}
    (hk : k < (write lines v).toList.length) :
    d.ofText (String.ofList ((write lines v).toList.take k)) = .error .ended := by
  have hcut := truncates_iff_take.2 ⟨k, hk, rfl⟩
  rw [Decoder.ofText, String.toList_ofList]
  exact congrArg (· >>= _) (h .nil (spells_write lines v) hcut)

end Decoder

end CouplingMap.Json
