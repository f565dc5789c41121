import CouplingMap.Proofs.Json.Value

/-!
# What is read can be passed over

Passing over a value asks less than reading it: halves of surrogate pairs may stand alone, numbers
are given no value, and containers are closed on a stack instead of by nested walks. What is read as
a value is also passed over, and the same text is left.

* `Quoted.skip_of_read`, `Numeral.scan_of_scan`: strings and numbers.
* `Closes`: the rest of an open container is passed over in any walk that has rounds enough. One
  lemma for its end and one for an item.
* `skip_of_value`: values.
-/

namespace CouplingMap.Json

/-! ## Fixed characters -/

section

variable {ws cs rest : List Char}

/-- A fixed word is read off the front of a text. -/
theorem word_eq_ok : word ws cs = .ok ((), rest) ↔ cs = ws ++ rest := by
  induction ws generalizing cs with
  | nil =>
    rw [word, List.nil_append]
    exact ⟨fun h => by cases h; rfl, fun h => h ▸ rfl⟩
  | cons w ws ih =>
    cases cs with
    | nil => exact ⟨nofun, nofun⟩
    | cons c cs =>
      rw [word, List.cons_append, List.cons.injEq]
      split
      · rename_i hc
        rw [ih, and_iff_right hc]
      · rename_i hc
        exact ⟨nofun, fun h => absurd h.1 hc⟩

theorem length_le_of_word (h : word ws cs = .ok ((), rest)) : rest.length ≤ cs.length := by
  rw [word_eq_ok.1 h, List.length_append]
  omega

theorem length_lt_of_skipSpace {c : Char} (h : skipSpace cs = c :: rest) :
    rest.length < cs.length := by
  have := length_skipSpace_le cs
  rw [h, List.length_cons] at this
  omega

theorem length_lt_of_colon (h : colon cs = .ok ((), rest)) : rest.length < cs.length := by
  unfold colon at h
  split at h
  · contradiction
  · rename_i c tail hcs
    split at h
    · obtain ⟨⟩ := h
      exact length_lt_of_skipSpace hcs
    · contradiction

end

/-! ## Strings -/

namespace Quoted

variable {bound cs done s rest : List Char} {d : Char} {n : Nat}

theorem length_lt_of_hexUnit (h : hexUnit cs = .ok (n, rest)) : rest.length < cs.length := by
  unfold hexUnit at h
  split at h
  · split at h
    · obtain ⟨⟩ := h
      simp only [List.length_cons]
      omega
    · contradiction
  · contradiction

theorem length_lt_of_skipEscape (h : skipEscape cs = .ok ((), rest)) : rest.length < cs.length := by
  unfold skipEscape at h
  split at h
  · contradiction
  · rename_i c tail
    rw [List.length_cons]
    split at h
    · obtain ⟨⟨n, _⟩, hunit, ⟨⟩⟩ := map_eq_ok.1 h
      exact Nat.lt_succ_of_lt (length_lt_of_hexUnit hunit)
    · split at h
      · obtain ⟨⟩ := h
        exact Nat.lt_succ_self _
      · contradiction

theorem mark_eq_ok {c : Char} : mark c cs = .ok ((), rest) ↔ cs = c :: rest := word_eq_ok

/-- An escape that is read is passed over at once, or in two rounds if it is a surrogate pair. -/
theorem skipEscape_of_escape (h : escape cs = .ok (d, rest)) :
    skipEscape cs = .ok ((), rest) ∨
      ∃ mid, skipEscape cs = .ok ((), '\\' :: mid) ∧ skipEscape mid = .ok ((), rest) := by
  unfold escape at h
  split at h
  · contradiction
  rename_i c tail
  split at h
  · rename_i hc
    subst hc
    have hskip {tail rest : List Char} {n : Nat} (h : hexUnit tail = .ok (n, rest)) :
        skipEscape ('u' :: tail) = .ok ((), rest) := map_eq_ok.2 ⟨_, h, rfl⟩
    obtain ⟨⟨n, tail'⟩, hunit, h⟩ := bind_eq_ok.1 h
    dsimp only at h
    split at h
    · contradiction
    split at h
    · obtain ⟨⟨⟨⟩, _⟩, hbackslash, h⟩ := bind_eq_ok.1 h
      obtain ⟨⟨⟨⟩, _⟩, hu, h⟩ := bind_eq_ok.1 h
      obtain ⟨⟨m, _⟩, hunit', h⟩ := bind_eq_ok.1 h
      dsimp only at hu hunit' h
      rw [mark_eq_ok.1 hbackslash, mark_eq_ok.1 hu] at hunit
      split at h
      · obtain ⟨-, rfl⟩ := Prod.mk.inj (Except.ok.inj h)
        exact .inr ⟨_, hskip hunit, hskip hunit'⟩
      · contradiction
    · obtain ⟨⟩ := h
      exact .inl (hskip hunit)
  · rename_i hc
    split at h
    · rename_i e he
      obtain ⟨⟩ := h
      left
      rw [skipEscape, if_neg hc, he]
      rfl
    · contradiction

/-- The action on an escape of a string that is passed over. -/
def skipped : Reader Char := fun cs => (skipEscape cs).map fun r => (' ', r.2)

/-- Characters that are read up to the closing quote are passed over. Surrogate pairs take two
rounds, so the number of rounds is bounded by the text and not by that of the reading walk. -/
theorem charsFrom_skipped (h : charsFrom escape bound done cs = .ok (s, rest)) :
    rest.length < cs.length ∧ ∀ bound' done', cs.length ≤ bound'.length →
      ∃ s', charsFrom skipped bound' done' cs = .ok (s', rest) := by
  induction bound generalizing done cs with
  | nil => contradiction
  | cons b bound ih =>
    cases cs with
    | nil => contradiction
    | cons c cs =>
      have hround {bound' : List Char} (hle : (c :: cs).length ≤ bound'.length) :
          ∃ b' bound'', bound' = b' :: bound'' ∧ cs.length ≤ bound''.length := by
        obtain ⟨b', bound'', rfl⟩ := List.exists_cons_of_length_pos (Nat.zero_lt_of_lt hle)
        exact ⟨b', bound'', rfl, Nat.le_of_succ_le_succ hle⟩
      rw [charsFrom] at h
      simp only [List.length_cons]
      split at h
      · rename_i hc
        obtain ⟨⟩ := h
        refine ⟨Nat.lt_succ_self _, fun bound' done' hle => ?_⟩
        obtain ⟨b', bound', rfl, -⟩ := hround hle
        exact ⟨done'.reverse, by rw [charsFrom, if_pos hc]⟩
      split at h
      · rename_i hquote hbackslash
        have hstep {tail mid : List Char} (b' : Char) (bound' done' : List Char)
            (hskip : skipEscape tail = .ok ((), mid)) :
            charsFrom skipped (b' :: bound') done' ('\\' :: tail) =
              charsFrom skipped bound' (' ' :: done') mid := by
          rw [charsFrom, if_neg (by decide), if_pos rfl, skipped, hskip]
          rfl
        obtain ⟨⟨d, mid⟩, hescape, h⟩ := bind_eq_ok.1 h
        obtain ⟨hlt, hall⟩ := ih h
        subst hbackslash
        rcases skipEscape_of_escape hescape with hskip | ⟨pair, hskip, hskip'⟩
        · have hmid := length_lt_of_skipEscape hskip
          refine ⟨by omega, fun bound' done' hle => ?_⟩
          obtain ⟨b', bound', rfl, hbound⟩ := hround hle
          rw [hstep b' bound' done' hskip]
          exact hall _ _ (by omega)
        · have hpair := length_lt_of_skipEscape hskip
          have hmid := length_lt_of_skipEscape hskip'
          rw [List.length_cons] at hpair
          refine ⟨by omega, fun bound' done' hle => ?_⟩
          obtain ⟨b', bound', rfl, hbound⟩ := hround hle
          obtain ⟨b'', bound', rfl⟩ :=
            List.exists_cons_of_length_pos (Nat.lt_of_lt_of_le (Nat.zero_lt_of_lt hpair) hbound)
          rw [hstep b' _ done' hskip, hstep b'' bound' _ hskip']
          rw [List.length_cons] at hbound
          exact hall _ _ (by omega)
      split at h
      · contradiction
      · rename_i hquote hbackslash hcontrol
        obtain ⟨hlt, hall⟩ := ih h
        refine ⟨Nat.lt_succ_of_lt hlt, fun bound' done' hle => ?_⟩
        obtain ⟨b', bound', rfl, hbound⟩ := hround hle
        rw [charsFrom, if_neg hquote, if_neg hbackslash, if_neg hcontrol]
        exact hall _ _ hbound

/-- A string that is read can be passed over. -/
theorem skip_of_read {k : String} (h : read cs = .ok (k, rest)) :
    skip cs = .ok ((), rest) ∧ rest.length < cs.length := by
  obtain ⟨⟨s, _⟩, hchars, ⟨⟩⟩ := bind_eq_ok.1 h
  obtain ⟨hlt, hall⟩ := charsFrom_skipped hchars
  obtain ⟨s', hs'⟩ := hall cs [] (Nat.le_refl _)
  exact ⟨bind_eq_ok.2 ⟨_, hs', rfl⟩, hlt⟩

end Quoted

/-! ## Numbers -/

namespace Numeral

variable {early : ReadError} (late : ReadError) {cs ds rest : List Char} {t : Numeral}

/-- The problem for a text that ends early does not matter if it does not. -/
theorem scanDigits_of_scanDigits (h : scanDigits early cs = .ok (ds, rest)) :
    scanDigits late cs = .ok (ds, rest) ∧ rest.length < cs.length := by
  unfold scanDigits at h
  split at h
  · contradiction
  · rename_i c cs
    split at h
    · rename_i hc
      obtain ⟨⟩ := h
      refine ⟨if_pos hc, ?_⟩
      rw [List.dropWhile_cons_of_pos hc, List.length_cons]
      exact Nat.lt_succ_of_le (List.dropWhile_sublist _).length_le
    · contradiction

theorem scanWhole_of_scanWhole (h : scanWhole early cs = .ok (ds, rest)) :
    scanWhole late cs = .ok (ds, rest) ∧ rest.length < cs.length := by
  obtain ⟨⟨ds', _⟩, hdigits, h⟩ := bind_eq_ok.1 h
  obtain ⟨hdigits, hlt⟩ := scanDigits_of_scanDigits late hdigits
  have hwhole : scanWhole late cs = .ok (ds, rest) := bind_eq_ok.2 ⟨_, hdigits, h⟩
  dsimp only at h
  split at h
  · contradiction
  · obtain ⟨⟩ := h
    exact ⟨hwhole, hlt⟩

theorem scanFraction_of_scanFraction (h : scanFraction early cs = .ok (ds, rest)) :
    scanFraction late cs = .ok (ds, rest) ∧ rest.length ≤ cs.length := by
  unfold scanFraction at h ⊢
  split at h
  · obtain ⟨hdigits, hlt⟩ := scanDigits_of_scanDigits late h
    exact ⟨hdigits, Nat.le_succ_of_le (Nat.le_of_lt hlt)⟩
  · obtain ⟨⟩ := h
    exact ⟨rfl, Nat.le_refl _⟩

theorem scanExponent_of_scanExponent {e : Option (Bool × List Char)}
    (h : scanExponent early cs = .ok (e, rest)) :
    scanExponent late cs = .ok (e, rest) ∧ rest.length ≤ cs.length := by
  unfold scanExponent at h ⊢
  split at h
  · rename_i c tail
    split at h
    · rename_i hc
      obtain ⟨⟨ds, _⟩, hdigits, ⟨⟩⟩ := map_eq_ok.1 h
      obtain ⟨hdigits, hlt⟩ := scanDigits_of_scanDigits late hdigits
      refine ⟨?_, ?_⟩
      · simp only [if_pos hc]
        exact map_eq_ok.2 ⟨_, hdigits, rfl⟩
      · refine Nat.le_of_lt (Nat.lt_of_lt_of_le hlt ?_)
        split <;> simp only [List.length_cons] <;> omega
    · rename_i hc
      obtain ⟨⟩ := h
      exact ⟨if_neg hc, Nat.le_refl _⟩
  · obtain ⟨⟩ := h
    exact ⟨rfl, Nat.le_refl _⟩

theorem scan_of_scan (h : scan early cs = .ok (t, rest)) :
    scan late cs = .ok (t, rest) ∧ rest.length < cs.length := by
  obtain ⟨⟨whole, cs₁⟩, hwhole, h⟩ := bind_eq_ok.1 h
  obtain ⟨⟨fraction, cs₂⟩, hfraction, h⟩ := bind_eq_ok.1 h
  obtain ⟨⟨exponent, cs₃⟩, hexponent, ⟨⟩⟩ := bind_eq_ok.1 h
  obtain ⟨hwhole, hlt⟩ := scanWhole_of_scanWhole late hwhole
  obtain ⟨hfraction, hle⟩ := scanFraction_of_scanFraction late hfraction
  obtain ⟨hexponent, hle'⟩ := scanExponent_of_scanExponent late hexponent
  refine ⟨bind_eq_ok.2 ⟨_, hwhole, bind_eq_ok.2 ⟨_, hfraction, bind_eq_ok.2 ⟨_, hexponent, rfl⟩⟩⟩,
    Nat.lt_of_lt_of_le (Nat.lt_of_le_of_lt (Nat.le_trans hle' hle) hlt) ?_⟩
  split
  · exact (List.drop_sublist 1 cs).length_le
  · exact Nat.le_refl _

end Numeral

/-! ## Containers -/

variable {depth : Nat} {k : Container} {fresh : Bool} {c : Char} {cs tail mid rest : List Char}
  {v : Json} {vs : List Json} {ms : List (String × Json)} {token token' : Reader (Option Container)}

/-- The rest of an open container is passed over by every walk with as many rounds as there are
characters, whatever other containers are open. -/
structure Closes (k : Container) (fresh : Bool) (cs rest : List Char) : Prop where
  length_lt : rest.length < cs.length
  skipFrom : ∀ opened bound, cs.length ≤ bound.length → ∃ bound', rest.length ≤ bound'.length ∧
    skipFrom bound fresh (k :: opened) cs = skipFrom bound' false opened rest

/-- What `token` reads is passed over, together with the container that it opens, if any. -/
structure Passes (token : Reader (Option Container)) (cs rest : List Char) : Prop where
  length_lt : rest.length < cs.length
  token : token cs = .ok (none, rest) ∨ ∃ k inner, token cs = .ok (some k, inner) ∧
    inner.length < cs.length ∧ Closes k true inner rest

/-- The closing bracket takes one round. -/
theorem Closes.of_close (h : skipSpace cs = k.close :: rest) : Closes k fresh cs rest where
  length_lt := length_lt_of_skipSpace h
  skipFrom opened bound hle := by
    have hlt := length_lt_of_skipSpace h
    obtain ⟨b, bound, rfl⟩ := List.exists_cons_of_length_pos (Nat.lt_of_lt_of_le
      (Nat.zero_lt_of_lt hlt) hle)
    rw [List.length_cons] at hle
    refine ⟨bound, by omega, ?_⟩
    rw [Json.skipFrom, h]
    exact if_pos rfl

/-- An item takes one round, and those of the container that it opens. -/
theorem Closes.item (h : skipSpace cs = c :: tail) (hclose : c ≠ k.close)
    (hcomma : (fresh || c = ',') = true)
    (hitem : Passes (skipItem k) (if fresh then c :: tail else tail) mid)
    (hmid : Closes k false mid rest) : Closes k fresh cs rest := by
  have hle : (if fresh then c :: tail else tail).length ≤ cs.length := by
    have hlt := length_lt_of_skipSpace h
    split
    · exact hlt
    · exact Nat.le_of_lt hlt
  have hlt := hitem.length_lt
  have hlt' := hmid.length_lt
  refine ⟨by omega, fun opened bound hbound => ?_⟩
  obtain ⟨b, bound, rfl⟩ := List.exists_cons_of_length_pos
    (by omega : 0 < bound.length)
  rw [List.length_cons] at hbound
  rw [Json.skipFrom, h]
  simp only [if_neg hclose, if_pos hcomma]
  rcases hitem.token with htoken | ⟨inner, cs', htoken, hlt'', hinner⟩
  · rw [htoken]
    exact hmid.skipFrom opened bound (by omega)
  · obtain ⟨bound', hbound', heq⟩ := hinner.skipFrom (k :: opened) bound (by omega)
    rw [htoken]
    obtain ⟨bound'', hbound'', heq'⟩ := hmid.skipFrom opened bound' hbound'
    exact ⟨bound'', hbound'', heq.trans heq'⟩

/-- What comes before a token does not matter. -/
theorem Passes.of_eq (h : Passes token' mid rest) (heq : token cs = token' mid)
    (hle : mid.length ≤ cs.length) : Passes token cs rest where
  length_lt := Nat.lt_of_lt_of_le h.length_lt hle
  token := by
    rw [heq]
    rcases h.token with htoken | ⟨k, inner, htoken, hlt, hinner⟩
    · exact .inl htoken
    · exact .inr ⟨k, inner, htoken, Nat.lt_of_lt_of_le hlt hle, hinner⟩

theorem skipToken_skipSpace (cs : List Char) : skipToken (skipSpace cs) = skipToken cs := by
  rw [skipToken, skipToken, skipSpace_skipSpace]

/-- The name of a member is passed over in front of its value. -/
theorem skipName_of_read {k : String} {cs₁ cs₂ cs₃ : List Char} (h : skipSpace cs = '"' :: cs₁)
    (hk : Quoted.read cs₁ = .ok (k, cs₂)) (hcolon : colon cs₂ = .ok ((), cs₃)) :
    skipName cs = .ok ((), cs₃) ∧ cs₃.length ≤ cs.length := by
  obtain ⟨hskip, hlt⟩ := Quoted.skip_of_read hk
  have hlt' := length_lt_of_skipSpace h
  have hlt'' := length_lt_of_colon hcolon
  refine ⟨?_, by omega⟩
  rw [skipName, h]
  exact bind_eq_ok.2 ⟨_, hskip, hcolon⟩

theorem ParsesItems.closes
    (hvalue : ∀ {cs v rest}, value depth cs = .ok (v, rest) → Passes skipToken cs rest)
    (h : ParsesItems depth fresh cs vs rest) : Closes .list fresh cs rest := by
  induction h with
  | close h => exact .of_close (nextItem_eq_close.1 h)
  | @item fresh cs cs₁ cs₂ rest v vs h hv hvs ih =>
    obtain ⟨c, tail, hcs, hclose, hcomma, rfl⟩ := skipSpace_of_nextItem h
    rw [value_skipSpace] at hv
    exact .item hcs hclose hcomma (hvalue hv) ih

theorem ParsesMembers.closes
    (hvalue : ∀ {cs v rest}, value depth cs = .ok (v, rest) → Passes skipToken cs rest)
    (h : ParsesMembers depth fresh cs ms rest) : Closes .object fresh cs rest := by
  induction h with
  | close h => exact .of_close (nextMember_eq_close.1 h)
  | member h hk hcolon hv hms ih =>
    obtain ⟨c, tail, hcs, hclose, hcomma, hname⟩ := skipSpace_of_nextMember h
    obtain ⟨hskip, hle⟩ := skipName_of_read hname hk hcolon
    refine .item hcs hclose hcomma ((hvalue hv).of_eq ?_ hle) ih
    rw [skipItem, hskip]
    rfl

/-! ## Values -/

theorem Passes.of_token (h : skipToken cs = .ok (none, rest)) (hlt : rest.length < cs.length) :
    Passes skipToken cs rest :=
  ⟨hlt, .inl h⟩

/-- A value in front of a text is passed over if those of less depth are. -/
theorem Parses.passes
    (hvalue : ∀ inner < depth, ∀ {cs v rest}, value inner cs = .ok (v, rest) →
      Passes skipToken cs rest)
    (h : Parses depth cs v rest) : Passes skipToken cs rest := by
  have hword {ws cs rest : List Char} (h : word ws cs = .ok ((), rest)) (c : Char) :
      rest.length < (c :: cs).length := Nat.lt_succ_of_le (length_le_of_word h)
  have htoken := skipToken.eq_def cs
  rw [h.solid.skipSpace_eq] at htoken
  cases h with
  | null h => exact .of_token (htoken.trans (map_eq_ok.2 ⟨_, h, rfl⟩)) (hword h 'n')
  | yes h => exact .of_token (htoken.trans (map_eq_ok.2 ⟨_, h, rfl⟩)) (hword h 't')
  | no h => exact .of_token (htoken.trans (map_eq_ok.2 ⟨_, h, rfl⟩)) (hword h 'f')
  | string h =>
    obtain ⟨hskip, hlt⟩ := Quoted.skip_of_read h
    exact .of_token (htoken.trans (map_eq_ok.2 ⟨_, hskip, rfl⟩)) (Nat.lt_succ_of_lt hlt)
  | number hc h =>
    have hne {d : Char} (hd : Numeral.starts d = false) := Numeral.ne_of_starts hc hd
    obtain ⟨⟨t, _⟩, hscan, h⟩ := bind_eq_ok.1 h
    obtain ⟨n, -, ⟨⟩⟩ := bind_eq_ok.1 h
    obtain ⟨hscan, hlt⟩ := Numeral.scan_of_scan .malformed hscan
    refine .of_token (htoken.trans ?_) hlt
    dsimp only
    rw [if_neg (hne (by decide)), if_neg (hne (by decide)), if_neg (hne (by decide)),
      if_neg (hne (by decide)), if_pos hc, hscan]
    rfl
  | @list depth cs _ vs h hlength =>
    have hcloses := h.closes (hvalue depth (Nat.lt_succ_self _))
    exact ⟨Nat.lt_succ_of_lt hcloses.length_lt,
      .inr ⟨.list, cs, htoken, Nat.lt_succ_self _, hcloses⟩⟩
  | @object depth cs _ ms h hlength =>
    have hcloses := h.closes (hvalue depth (Nat.lt_succ_self _))
    exact ⟨Nat.lt_succ_of_lt hcloses.length_lt,
      .inr ⟨.object, cs, htoken, Nat.lt_succ_self _, hcloses⟩⟩

/-- A value that is read is passed over. The induction is on the levels of nesting: the items of a
container have one level less. -/
theorem passes_of_value (h : value depth cs = .ok (v, rest)) : Passes skipToken cs rest := by
  induction depth using Nat.strongRecOn generalizing cs v rest with
  | ind depth ih =>
    have hpasses := (value_parses h).passes fun inner hlt _ _ _ h => ih inner hlt h
    exact hpasses.of_eq (skipToken_skipSpace cs).symm (length_skipSpace_le cs)

/-- What is passed over as a token, together with what it opens, is passed over as a value. -/
theorem Passes.skip (h : Passes skipToken cs rest) : skip cs = .ok ((), rest) := by
  rcases h.token with htoken | ⟨k, inner, htoken, -, hinner⟩
  · rw [Json.skip, htoken]
    rfl
  · obtain ⟨bound, -, heq⟩ := hinner.skipFrom [] inner (Nat.le_refl _)
    rw [Json.skip, htoken]
    refine heq.trans ?_
    rw [Json.skipFrom]

/-- What is read as a value is passed over, and the same text is left. -/
theorem skip_of_value (h : value depth cs = .ok (v, rest)) : skip cs = .ok ((), rest) :=
  (passes_of_value h).skip

end CouplingMap.Json
