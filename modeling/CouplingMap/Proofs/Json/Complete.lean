import CouplingMap.Proofs.Json.Grammar

/-!
# The grammar has every text that is passed over

What is passed over as a value is a value of the grammar, at any depth, so the two are the same. The
rest of a number, of a string and of each open container is taken off the front of the text.

* `exists_blank`, `exists_opening`: blanks and commas in front of what is read.
* `numberText_of_scan`, `Quoted.stringText_of_skip`, `Quoted.exists_names`: numbers and strings.
* `OpenText`: the text that the open containers have left. It is kept by each round of the walk.
* `valueText_of_skip`: values.
-/

namespace CouplingMap.Json

variable {b cs ds mid rest tail s : List Char} {c : Char} {first : Bool}

/-! ## Blanks and openings -/

/-- A text is what is left of it behind some blanks. -/
theorem exists_blank (cs : List Char) : ∃ b, Blank b ∧ cs = b ++ skipSpace cs :=
  ⟨cs.takeWhile isSpace, fun _ hc => List.mem_takeWhile_imp hc,
    List.takeWhile_append_dropWhile.symm⟩

theorem exists_blank_cons (h : skipSpace cs = c :: tail) : ∃ b, Blank b ∧ cs = b ++ c :: tail :=
  h ▸ exists_blank cs

/-- What stands in front of an item or a member. -/
theorem exists_opening (h : skipSpace cs = c :: tail) (hcomma : (first || c = ',') = true) :
    ∃ o, Opening first o ∧ cs = o ++ if first then c :: tail else tail := by
  obtain ⟨a, ha, hcs⟩ := exists_blank_cons h
  refine ⟨_, .blanks ha Blank.nil, ?_⟩
  rw [hcs, List.append_nil, List.append_assoc]
  cases first with
  | true => rfl
  | false =>
    obtain rfl : c = ',' := by simpa using hcomma
    rfl

/-- Blanks behind an opening belong to it. -/
theorem Opening.append_blank {o : List Char} (ho : Opening first o) (hb : Blank b) :
    Opening first (o ++ b) := by
  obtain ⟨ha, hb'⟩ := ho
  rw [List.append_assoc, List.append_assoc]
  exact .blanks ha (hb'.append hb)

theorem exists_opening_item (h : nextItem first cs = .ok (.more mid)) :
    ∃ o, Opening first o ∧ cs = o ++ mid := by
  obtain ⟨c, tail, hcs, -, hcomma, rfl⟩ := skipSpace_of_nextItem h
  obtain ⟨o, ho, heq⟩ := exists_opening hcs hcomma
  obtain ⟨b, hb, htail⟩ := exists_blank (if first then c :: tail else tail)
  exact ⟨_, ho.append_blank hb, by rw [List.append_assoc, ← htail, heq]⟩

theorem exists_opening_member (h : nextMember first cs = .ok (.more mid)) :
    ∃ o, Opening first o ∧ cs = o ++ '"' :: mid := by
  obtain ⟨c, tail, hcs, -, hcomma, hmid⟩ := skipSpace_of_nextMember h
  obtain ⟨o, ho, heq⟩ := exists_opening hcs hcomma
  obtain ⟨b, hb, htail⟩ := exists_blank_cons hmid
  exact ⟨_, ho.append_blank hb, by rw [List.append_assoc, ← htail, heq]⟩

theorem exists_blank_colon (h : colon cs = .ok ((), rest)) :
    ∃ b, Blank b ∧ cs = b ++ ':' :: rest := by
  unfold colon at h
  split at h
  · contradiction
  rename_i c tail hcs
  split at h
  · rename_i hc
    cases h
    exact hc ▸ exists_blank_cons hcs
  · contradiction

/-! ## Numbers -/

namespace Numeral

variable {early : ReadError} {t : Numeral} {e : Option (Bool × List Char)}

theorem isRun_of_scanDigits (h : scanDigits early cs = .ok (ds, rest)) :
    IsRun ds ∧ cs = ds ++ rest := by
  unfold scanDigits at h
  split at h
  · contradiction
  rename_i c cs
  split at h
  · rename_i hc
    cases h
    refine ⟨⟨?_, fun c hc => List.mem_takeWhile_imp hc⟩, List.takeWhile_append_dropWhile.symm⟩
    rw [List.takeWhile_cons_of_pos hc]
    exact List.cons_ne_nil _ _
  · contradiction

theorem isRun_of_scanWhole (h : scanWhole early cs = .ok (ds, rest)) :
    IsRun ds ∧ (ds.head? = some '0' → ds = ['0']) ∧ cs = ds ++ rest := by
  obtain ⟨⟨ds', _⟩, hdigits, h⟩ := bind_eq_ok.1 h
  obtain ⟨hrun, hcs⟩ := isRun_of_scanDigits hdigits
  dsimp only at h
  split at h
  · contradiction
  rename_i hplain
  cases h
  refine ⟨hrun, fun hzero => ?_, hcs⟩
  match ds, hrun.1 with
  | [d], _ => exact congrArg (· :: []) (Option.some.inj hzero)
  | d :: d' :: ds, _ => exact absurd ⟨hzero, by simp⟩ hplain

theorem digits_of_scanFraction (h : scanFraction early cs = .ok (ds, rest)) :
    (∀ c ∈ ds, c.isDigit = true) ∧ cs = fractionChars ds ++ rest := by
  unfold scanFraction at h
  split at h
  · obtain ⟨⟨hne, hall⟩, rfl⟩ := isRun_of_scanDigits h
    exact ⟨hall, by rw [fractionChars, if_neg hne]; rfl⟩
  · cases h
    exact ⟨fun c hc => absurd hc List.not_mem_nil, rfl⟩

theorem exponentText_of_scanExponent (h : scanExponent early cs = .ok (e, rest)) :
    ∃ es, ExponentText es ∧ cs = es ++ rest := by
  unfold scanExponent at h
  split at h
  · rename_i letter tail
    split at h
    · rename_i hletter
      obtain ⟨⟨ds, _⟩, hdigits, ⟨⟩⟩ := map_eq_ok.1 h
      obtain ⟨hrun, hcs⟩ := isRun_of_scanDigits hdigits
      split at hcs
      · exact ⟨_, .present hletter (.inr (.inl rfl)) hrun, congrArg (_ :: '+' :: ·) hcs⟩
      · exact ⟨_, .present hletter (.inr (.inr rfl)) hrun, congrArg (_ :: '-' :: ·) hcs⟩
      · exact ⟨_, .present hletter (.inl rfl) hrun, congrArg (_ :: ·) hcs⟩
    · cases h
      exact ⟨[], .absent, rfl⟩
  · cases h
    exact ⟨[], .absent, rfl⟩

end Numeral

/-- A number that is scanned is one of the grammar. -/
theorem numberText_of_scan {early : ReadError} {t : Numeral}
    (h : Numeral.scan early cs = .ok (t, rest)) : ∃ ns, NumberText ns ∧ cs = ns ++ rest := by
  obtain ⟨⟨whole, cs₁⟩, hwhole, h⟩ := bind_eq_ok.1 h
  obtain ⟨⟨fraction, cs₂⟩, hfraction, h⟩ := bind_eq_ok.1 h
  obtain ⟨⟨exponent, cs₃⟩, hexponent, ⟨⟩⟩ := bind_eq_ok.1 h
  obtain ⟨hrun, hplain, hcs⟩ := Numeral.isRun_of_scanWhole hwhole
  obtain ⟨hdigits, rfl⟩ := Numeral.digits_of_scanFraction hfraction
  obtain ⟨es, hes, rfl⟩ := Numeral.exponentText_of_scanExponent hexponent
  refine ⟨_, .parts (decide (cs.head? = some '-')) hrun hplain hdigits hes, ?_⟩
  simp only [List.append_assoc]
  rw [← hcs]
  cases cs with
  | nil => rfl
  | cons c cs =>
    by_cases hc : c = '-'
    · subst hc
      rfl
    · simp [hc]

/-! ## Strings -/

namespace Quoted

variable {bound done : List Char} {n : Nat}

theorem hexQuad_of_hexUnit (h : hexUnit cs = .ok (n, rest)) :
    ∃ x y z w, hexQuad? x y z w = some n ∧ cs = x :: y :: z :: w :: rest := by
  unfold hexUnit at h
  split at h
  · split at h
    · rename_i hn
      cases h
      exact ⟨_, _, _, _, hn, rfl⟩
    · contradiction
  · contradiction

/-- What is passed over up to the closing quote is the text of a string. -/
theorem stringText_of_charsFrom (h : charsFrom skipped bound done cs = .ok (s, rest)) :
    ∃ ks, StringText ks ∧ cs = ks ++ rest := by
  induction bound generalizing done cs with
  | nil => contradiction
  | cons b bound ih =>
    cases cs with
    | nil => contradiction
    | cons c cs =>
      rw [charsFrom] at h
      split at h
      · rename_i hc
        cases h
        exact ⟨_, .close, hc ▸ rfl⟩
      rename_i hquote
      split at h
      · rename_i hc
        subst hc
        obtain ⟨⟨_, mid⟩, hskipped, h⟩ := bind_eq_ok.1 h
        obtain ⟨⟨⟨⟩, _⟩, hskip, heq⟩ := map_eq_ok.1 hskipped
        obtain ⟨-, rfl⟩ := Prod.mk.inj heq
        obtain ⟨ks, hks, rfl⟩ := ih h
        unfold skipEscape at hskip
        split at hskip
        · contradiction
        rename_i e tail
        split at hskip
        · rename_i he
          subst he
          obtain ⟨⟨n, _⟩, hunit, heq⟩ := map_eq_ok.1 hskip
          obtain ⟨-, rfl⟩ := Prod.mk.inj heq
          obtain ⟨x, y, z, w, hn, rfl⟩ := hexQuad_of_hexUnit hunit
          exact ⟨_, .unit hn hks, rfl⟩
        split at hskip
        · rename_i he
          cases hskip
          exact ⟨_, .short he hks, rfl⟩
        · contradiction
      rename_i hbackslash
      split at h
      · contradiction
      · rename_i hcontrol
        obtain ⟨ks, hks, rfl⟩ := ih h
        exact ⟨_, .plain hquote hbackslash (Bool.eq_false_iff.2 hcontrol) hks, rfl⟩

/-- A string that is passed over is one of the grammar. -/
theorem stringText_of_skip (h : skip cs = .ok ((), rest)) :
    ∃ ks, StringText ks ∧ cs = ks ++ rest := by
  obtain ⟨⟨_, _⟩, hchars, ⟨⟩⟩ := bind_eq_ok.1 h
  exact stringText_of_charsFrom hchars

/-- A string that is read is one of the grammar, and it is what its text stands for. -/
theorem exists_names {t : String} (h : read cs = .ok (t, rest)) :
    ∃ ks, Names t.toList ks ∧ cs = ks ++ rest := by
  obtain ⟨ks, hks, rfl⟩ := stringText_of_skip (skip_of_read h).1
  obtain ⟨-, s, hs, rfl⟩ := names_of_read hks h
  exact ⟨ks, String.toList_ofList ▸ hs, rfl⟩

end Quoted

/-! ## Passing over values -/

/-- The opening bracket of a container. -/
def Container.opening : Container → Char
  | .list => '['
  | .object => '{'

/-- The text of what a container has left. -/
def Container.Inside : Container → Bool → List Char → Prop
  | .list => ItemsText
  | .object => MembersText

/-- What stands in front of a value in a container, apart from its opening. -/
def Container.Label : Container → List Char → Prop
  | .list => (· = [])
  | .object => Title StringText

/-- The text of a value that opens nothing, or an opening bracket. -/
def TokenText : Option Container → List Char → Prop
  | none => ValueText
  | some k => (· = [k.opening])

/-- The text of what the open containers have left, innermost first. -/
def OpenText : Bool → List Container → List Char → Prop
  | _, [], es => es = []
  | fresh, k :: opened, es =>
    ∃ ds es', k.Inside fresh ds ∧ OpenText false opened es' ∧ es = ds ++ es'

variable {k : Container} {inner : Option Container} {fresh : Bool} {opened : List Container}
  {bound o t v : List Char}

theorem Container.Inside.close (hb : Blank b) : k.Inside fresh (b ++ [k.close]) := by
  cases k with
  | list => exact .close hb
  | object => exact .close hb

theorem Container.Inside.item (ho : Opening fresh o) (ht : k.Label t) (hv : ValueText v)
    (h : k.Inside false ds) : k.Inside fresh (o ++ (t ++ (v ++ ds))) := by
  cases k with
  | list =>
    obtain rfl : t = [] := ht
    show ItemsText fresh (o ++ (v ++ ds))
    exact .item ho hv h
  | object => exact .member ho ht hv h

/-- A container is a value. -/
theorem Container.Inside.valueText (h : k.Inside true ds) : ValueText (k.opening :: ds) := by
  cases k with
  | list => exact .list h
  | object => exact .object h

theorem tokenText_of_skipToken (h : skipToken cs = .ok (inner, rest)) :
    ∃ b v, Blank b ∧ TokenText inner v ∧ cs = b ++ (v ++ rest) := by
  unfold skipToken at h
  split at h
  · contradiction
  rename_i c tail hcs
  obtain ⟨b, hb, rfl⟩ := exists_blank_cons hcs
  split at h
  · rename_i hc
    obtain ⟨⟨⟨⟩, _⟩, hword, ⟨⟩⟩ := map_eq_ok.1 h
    exact ⟨b, _, hb, .null, by rw [hc, word_eq_ok.1 hword]; rfl⟩
  split at h
  · rename_i hc
    obtain ⟨⟨⟨⟩, _⟩, hword, ⟨⟩⟩ := map_eq_ok.1 h
    exact ⟨b, _, hb, .yes, by rw [hc, word_eq_ok.1 hword]; rfl⟩
  split at h
  · rename_i hc
    obtain ⟨⟨⟨⟩, _⟩, hword, ⟨⟩⟩ := map_eq_ok.1 h
    exact ⟨b, _, hb, .no, by rw [hc, word_eq_ok.1 hword]; rfl⟩
  split at h
  · rename_i hc
    obtain ⟨⟨⟨⟩, _⟩, hskip, ⟨⟩⟩ := map_eq_ok.1 h
    obtain ⟨ks, hks, rfl⟩ := Quoted.stringText_of_skip hskip
    exact ⟨b, _, hb, .string hks, by rw [hc]; rfl⟩
  split at h
  · obtain ⟨⟨n, _⟩, hscan, ⟨⟩⟩ := map_eq_ok.1 h
    obtain ⟨ns, hns, heq⟩ := numberText_of_scan hscan
    exact ⟨b, ns, hb, .number hns, by rw [heq]⟩
  split at h
  · rename_i hc
    cases h
    exact ⟨b, _, hb, rfl, by rw [hc]; rfl⟩
  split at h
  · rename_i hc
    cases h
    exact ⟨b, _, hb, rfl, by rw [hc]; rfl⟩
  · contradiction

theorem title_of_skipName (h : skipName cs = .ok ((), rest)) :
    ∃ b t, Blank b ∧ Title StringText t ∧ cs = b ++ (t ++ rest) := by
  unfold skipName at h
  split at h
  · contradiction
  rename_i c tail hcs
  obtain ⟨b, hb, rfl⟩ := exists_blank_cons hcs
  split at h
  · rename_i hc
    obtain ⟨⟨⟨⟩, _⟩, hskip, hcolon⟩ := bind_eq_ok.1 h
    obtain ⟨ks, hks, rfl⟩ := Quoted.stringText_of_skip hskip
    obtain ⟨a, ha, rfl⟩ := exists_blank_colon hcolon
    exact ⟨b, _, hb, .name hks ha Blank.nil, by simp [hc]⟩
  · contradiction

theorem Title.append_blank {P : List Char → Prop} (ht : Title P t) (hb : Blank b) :
    Title P (t ++ b) := by
  obtain ⟨hk, ha, hb'⟩ := ht
  simp only [List.cons_append, List.append_assoc]
  exact .name hk ha (hb'.append hb)

theorem tokenText_of_skipItem (h : skipItem k cs = .ok (inner, rest)) :
    ∃ b t v, Blank b ∧ k.Label t ∧ TokenText inner v ∧ cs = b ++ (t ++ (v ++ rest)) := by
  cases k with
  | list =>
    obtain ⟨b, v, hb, hv, rfl⟩ := tokenText_of_skipToken h
    exact ⟨b, [], v, hb, rfl, hv, rfl⟩
  | object =>
    obtain ⟨⟨⟨⟩, _⟩, hname, htoken⟩ := bind_eq_ok.1 h
    obtain ⟨a, t, ha, ht, rfl⟩ := title_of_skipName hname
    obtain ⟨b, v, hb, hv, heq⟩ := tokenText_of_skipToken htoken
    refine ⟨a, t ++ b, v, ha, ht.append_blank hb, hv, ?_⟩
    rw [List.append_assoc, ← heq]

/-- What is passed over is what the open containers have left. The induction is on the rounds. -/
theorem openText_of_skipFrom (h : skipFrom bound fresh opened cs = .ok ((), rest)) :
    ∃ es, OpenText fresh opened es ∧ cs = es ++ rest := by
  induction bound generalizing fresh opened cs with
  | nil =>
    cases opened with
    | nil =>
      cases h
      exact ⟨[], rfl, rfl⟩
    | cons k opened => contradiction
  | cons b bound ih =>
    cases opened with
    | nil =>
      cases h
      exact ⟨[], rfl, rfl⟩
    | cons k opened =>
      rw [skipFrom] at h
      split at h
      · contradiction
      rename_i c tail hcs
      split at h
      · rename_i hc
        obtain ⟨b, hb, rfl⟩ := exists_blank_cons hcs
        obtain ⟨es, hes, rfl⟩ := ih h
        exact ⟨_, ⟨_, es, .close hb, hes, rfl⟩, by simp [hc]⟩
      split at h
      · rename_i hcomma
        obtain ⟨o, ho, rfl⟩ := exists_opening hcs hcomma
        obtain ⟨⟨inner, mid⟩, hitem, hrest⟩ := bind_eq_ok.1 h
        obtain ⟨b, t, v, hb, ht, hv, heq⟩ := tokenText_of_skipItem hitem
        have ho := ho.append_blank hb
        rw [heq]
        cases inner with
        | none =>
          obtain ⟨_, ⟨ds, es, hds, hes, rfl⟩, rfl⟩ := ih hrest
          exact ⟨_, ⟨_, es, .item ho ht hv hds, hes, rfl⟩, by simp⟩
        | some k' =>
          -- The value is the container that is opened here, up to its end.
          obtain rfl : v = [k'.opening] := hv
          obtain ⟨_, ⟨ds', _, hds', ⟨ds, es, hds, hes, rfl⟩, rfl⟩, rfl⟩ := ih hrest
          exact ⟨_, ⟨_, es, .item ho ht hds'.valueText hds, hes, rfl⟩, by simp⟩
      · contradiction

/-- What is passed over as a value is a value of the grammar. -/
theorem valueText_of_skip (h : skip cs = .ok ((), rest)) :
    ∃ b v, Blank b ∧ ValueText v ∧ cs = b ++ (v ++ rest) := by
  obtain ⟨⟨inner, mid⟩, htoken, hrest⟩ := bind_eq_ok.1 h
  obtain ⟨b, v, hb, hv, rfl⟩ := tokenText_of_skipToken htoken
  cases inner with
  | none =>
    cases hrest
    exact ⟨b, v, hb, hv, rfl⟩
  | some k =>
    obtain rfl : v = [k.opening] := hv
    obtain ⟨_, ⟨ds, _, hds, rfl, rfl⟩, rfl⟩ := openText_of_skipFrom hrest
    exact ⟨b, _, hb, hds.valueText, by simp⟩

/-- A text that is passed over as a whole is a value of the grammar. -/
theorem ValueText.of_skip (hcs : Solid cs) (h : skip cs = .ok ((), [])) : ValueText cs := by
  obtain ⟨b, v, hb, hv, rfl⟩ := valueText_of_skip h
  rw [List.append_nil] at hcs ⊢
  have heq := hb.skipSpace_solid hv.starts.solid
  rw [hcs.skipSpace_eq] at heq
  rwa [heq]

/-- A text that is read as a name, with its quote, may be the title of a member. -/
theorem Title.of_read (name : String) (ks : List Char) (h : Quoted.read ks = .ok (name, [])) :
    Title (Names name.toList) ('"' :: (ks ++ [':'])) := by
  obtain ⟨ks, hks, rfl⟩ := Quoted.exists_names h
  rw [List.append_nil]
  exact .name hks Blank.nil Blank.nil

end CouplingMap.Json
