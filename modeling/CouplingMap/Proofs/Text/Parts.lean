import CouplingMap.Text.Blank
import CouplingMap.Text.Lower
import CouplingMap.Text.Numeral
import CouplingMap.Text.Pieces
import Mathlib.Data.List.DropRight
import Mathlib.Data.List.Forall2

/-!
# Parts of texts

What trimming, cutting, reading numerals and lower case say about a text.

* `Text.Trimmed`, `Text.trim_eq_iff`: a text is its trimmed part between blanks.
* `Text.cut?_eq_some_iff`, `Text.pieces_join`: cutting undoes putting together.
* `Text.IsNumeral`, `Text.uint32?_eq_some_iff`: the numerals of a number; `Text.Denotes`,
  `Text.bounded?_eq_some_iff`: the same for numbers of any size.
* `Text.mapM_pieces_eq_some_iff`: numerals with blanks around them and separators between them.
* `Text.lower_eq_iff`: the texts with a given text in lower case.
-/

namespace CouplingMap.Text

variable {s t a b : List Char} {ps : List (List Char)} {is : List UInt32} {c sep : Char}
  {i : UInt32}

/-! ## Trimming -/

/-- A text that neither starts nor ends with a blank. -/
structure Trimmed (s : List Char) : Prop where
  first : ∀ c ∈ s.head?, isBlank c = false
  last : ∀ c ∈ s.getLast?, isBlank c = false

theorem trimmed_iff : Trimmed s ↔
    s.head?.any isBlank = false ∧ s.getLast?.any isBlank = false := by
  rw [Option.any_eq_false, Option.any_eq_false]
  exact ⟨fun h => ⟨h.first, h.last⟩, fun h => ⟨h.1, h.2⟩⟩

instance (s : List Char) : Decidable (Trimmed s) := decidable_of_iff _ trimmed_iff.symm

/-- Blanks are dropped up to the first character that is not blank. -/
theorem dropWhile_blanks (hb : ∀ c ∈ b, isBlank c = true)
    (hs : ∀ c ∈ s.head?, isBlank c = false) : (b ++ s).dropWhile isBlank = s := by
  rw [List.dropWhile_append_of_pos hb]
  cases s with
  | nil => rfl
  | cons c s => rw [List.dropWhile_cons, hs c rfl, if_neg Bool.false_ne_true]

/-- Trimming takes away blanks at both ends, and all of them. -/
theorem trim_eq_iff : trim s = t ↔ ∃ before after, s = before ++ t ++ after ∧
    (∀ c ∈ before, isBlank c = true) ∧ (∀ c ∈ after, isBlank c = true) ∧ Trimmed t := by
  constructor
  · rintro rfl
    have hsplit : trim s ++ (s.dropWhile isBlank).rtakeWhile isBlank = s.dropWhile isBlank :=
      List.rdropWhile_append_rtakeWhile
    refine ⟨s.takeWhile isBlank, (s.dropWhile isBlank).rtakeWhile isBlank, ?_,
      fun _ => List.mem_takeWhile_imp, fun _ => List.mem_rtakeWhile_imp, ?_, ?_⟩
    · rw [List.append_assoc, hsplit, List.takeWhile_append_dropWhile]
    · intro c hc
      have hnot := List.head?_dropWhile_not isBlank s
      rwa [← hsplit, List.head?_append, hc] at hnot
    · intro c hc
      have hnot := List.head?_dropWhile_not isBlank (s.dropWhile isBlank).reverse
      rw [trim, List.getLast?_reverse] at hc
      rwa [hc] at hnot
  · rintro ⟨before, after, rfl, hbefore, hafter, ht⟩
    have hreverse : ∀ c ∈ t.reverse.head?, isBlank c = false :=
      fun c hc => ht.last c (List.head?_reverse ▸ hc)
    have hblanks : ∀ c ∈ after.reverse, isBlank c = true :=
      fun c hc => hafter c (List.mem_reverse.1 hc)
    cases t with
    | nil =>
      -- There is no character to stop at, and all blanks go at the first end.
      have hdrop := dropWhile_blanks (s := []) (b := before ++ after)
        (fun c hc => (List.mem_append.1 hc).elim (hbefore c) (hafter c)) nofun
      rw [List.append_nil] at hdrop
      rw [trim, List.append_nil, hdrop]
      rfl
    | cons c t =>
      have hdrop : (before ++ (c :: t ++ after)).dropWhile isBlank = c :: t ++ after :=
        dropWhile_blanks hbefore ht.first
      rw [trim, List.append_assoc, hdrop, List.reverse_append,
        dropWhile_blanks hblanks hreverse, List.reverse_reverse]

theorem trimmed_trim (s : List Char) : Trimmed (trim s) := by
  obtain ⟨_, _, _, _, _, h⟩ := trim_eq_iff.1 (rfl : trim s = trim s)
  exact h

theorem Trimmed.trim_eq (h : Trimmed s) : trim s = s :=
  trim_eq_iff.2 ⟨[], [], by simp, nofun, nofun, h⟩

theorem mem_of_mem_trim (h : c ∈ trim s) : c ∈ s := by
  obtain ⟨_, _, hs, _⟩ := trim_eq_iff.1 (rfl : trim s = trim s)
  rw [hs]
  exact List.mem_append_left _ (List.mem_append_right _ h)

/-- Only blanks are trimmed. -/
theorem mem_trim (h : c ∈ s) (hc : isBlank c = false) : c ∈ trim s := by
  obtain ⟨before, after, hs, hbefore, hafter, _⟩ := trim_eq_iff.1 (rfl : trim s = trim s)
  rw [hs, List.mem_append, List.mem_append] at h
  obtain (h | h) | h := h
  · rw [hbefore c h] at hc
    contradiction
  · exact h
  · rw [hafter c h] at hc
    contradiction

/-! ## Cutting -/

/-- A cut at the first separator. -/
theorem cut?_eq_some_iff : cut? sep s = some (a, b) ↔ s = a ++ sep :: b ∧ sep ∉ a := by
  refine ⟨cut?_eq_some, ?_⟩
  rintro ⟨rfl, ha⟩
  induction a with
  | nil => exact if_pos rfl
  | cons c a ih =>
    rw [List.mem_cons, not_or] at ha
    rw [List.cons_append, cut?, if_neg (Ne.symm ha.1), ih ha.2]
    rfl

theorem pieces_eq_splitOn (sep : Char) (s : List Char) : pieces sep s = s.splitOn sep := by
  induction s with
  | nil => rfl
  | cons c s ih =>
    rw [pieces, List.splitOn_cons_eq_if_modifyHead, ← ih]
    simp only [beq_iff_eq]
    refine if_congr Iff.rfl rfl ?_
    cases hp : pieces sep s with
    | nil => exact absurd hp (pieces_ne_nil sep s)
    | cons p ps => rfl

theorem join_eq_intercalate (sep : List Char) (ps : List (List Char)) :
    join sep ps = sep.intercalate ps := by
  fun_induction join sep ps with
  | case1 => rfl
  | case2 s => exact List.intercalate_singleton.symm
  | case3 s t rest ih => rw [ih, List.intercalate_cons_cons]

/-- Texts without the separator are the pieces of the text that they make. -/
theorem pieces_join (hne : ps ≠ []) (h : ∀ p ∈ ps, sep ∉ p) : pieces sep (join [sep] ps) = ps := by
  rw [pieces_eq_splitOn, join_eq_intercalate, List.splitOn_intercalate sep h hne]

/-! ## Numerals -/

/-- The numerals of a number: an optional sign and digits, leading zeros allowed. -/
def IsNumeral (s : List Char) (i : UInt32) : Prop :=
  ∃ ds, (s = ds ∨ s = '+' :: ds) ∧ ds ≠ [] ∧ (∀ c ∈ ds, c.isDigit = true) ∧
    Nat.ofDigitChars 10 ds 0 = i.toNat

/-- The same for numbers of any size. -/
def Denotes (s : List Char) (k : Nat) : Prop :=
  ∃ ds, (s = ds ∨ s = '+' :: ds) ∧ ds ≠ [] ∧ (∀ c ∈ ds, c.isDigit = true) ∧
    Nat.ofDigitChars 10 ds 0 = k

theorem digitRun?_eq_some_iff {n : Nat} : digitRun? s = some n ↔
    s ≠ [] ∧ (∀ c ∈ s, c.isDigit = true) ∧ Nat.ofDigitChars 10 s 0 = n := by
  rw [digitRun?, Option.ite_none_right_eq_some, List.all_eq_true, Option.some.injEq, and_assoc]

theorem numeral?_eq_some_iff {n : Nat} : numeral? s = some n ↔
    ∃ ds, (s = ds ∨ s = '+' :: ds) ∧ digitRun? ds = some n := by
  unfold numeral?
  split
  · rename_i ds
    refine ⟨fun h => ⟨ds, .inr rfl, h⟩, ?_⟩
    rintro ⟨ds', rfl | heq, h⟩
    · have hplus := (digitRun?_eq_some_iff.1 h).2.1 '+' List.mem_cons_self
      contradiction
    · obtain rfl := List.tail_eq_of_cons_eq heq
      exact h
  · rename_i hs
    refine ⟨fun h => ⟨s, .inl rfl, h⟩, ?_⟩
    rintro ⟨ds, rfl | rfl, h⟩
    · exact h
    · exact absurd rfl (hs ds)

theorem numeral?_eq_some_iff_denotes {k : Nat} : numeral? s = some k ↔ Denotes s k := by
  simp only [numeral?_eq_some_iff, Denotes, digitRun?_eq_some_iff]

/-- A text is read as a number below a bound just if it is one of its numerals. -/
theorem bounded?_eq_some_iff {bound k : Nat} :
    bounded? bound s = some k ↔ Denotes s k ∧ k < bound := by
  rw [bounded?, Option.filter_eq_some_iff, decide_eq_true_eq, numeral?_eq_some_iff_denotes]

/-- A text is read as a number just if it is one of its numerals. -/
theorem uint32?_eq_some_iff : uint32? s = some i ↔ IsNumeral s i := by
  have hdenotes : IsNumeral s i ↔ Denotes s i.toNat := Iff.rfl
  simp only [uint32?, Option.map_eq_some_iff, bounded?_eq_some_iff, hdenotes]
  constructor
  · rintro ⟨n, ⟨h, hn⟩, rfl⟩
    rwa [UInt32.toNat_ofNat_of_lt' hn]
  · exact fun h => ⟨_, ⟨h, i.toNat_lt⟩, UInt32.ofNat_toNat⟩

theorem isNumeral_digits (i : UInt32) : IsNumeral (digits i.toNat) i :=
  uint32?_eq_some_iff.1 (uint32?_digits i)

/-- Numerals hold digits and a sign only. -/
theorem IsNumeral.notMem (h : IsNumeral s i) (hd : c.isDigit = false) (hc : c ≠ '+') : c ∉ s := by
  obtain ⟨ds, hs, -, hds, -⟩ := h
  have hmem : c ∉ ds := fun hmem => by
    rw [hds c hmem] at hd
    contradiction
  obtain rfl | rfl := hs
  · exact hmem
  · exact fun h => (List.mem_cons.1 h).elim hc hmem

theorem isBlank_of_isDigit (h : c.isDigit = true) : isBlank c = false := by
  simp only [Char.isDigit, Bool.and_eq_true, decide_eq_true_eq, ge_iff_le,
    UInt32.le_iff_toNat_le] at h
  have hlow : 48 ≤ c.toNat := h.1
  have hhigh : c.toNat ≤ 57 := h.2
  simp [isBlank, blankRanges]
  omega

theorem trimmed_digits (n : Nat) : Trimmed (digits n) :=
  ⟨fun _ hc => isBlank_of_isDigit (isDigit_of_mem_digits (List.mem_of_head? hc)),
    fun _ hc => isBlank_of_isDigit (isDigit_of_mem_digits (List.mem_of_getLast? hc))⟩

/-- Everything in a list is mapped to something, in order. -/
theorem mapM_eq_some_iff {α β : Type} {f : α → Option β} {xs : List α} {ys : List β} :
    xs.mapM f = some ys ↔ List.Forall₂ (fun x y => f x = some y) xs ys := by
  induction xs generalizing ys with
  | nil => simp [eq_comm]
  | cons x xs ih =>
    simp only [List.mapM_cons, List.forall₂_cons_left_iff, ← ih, Option.bind_eq_bind,
      Option.bind_eq_some_iff, Option.pure_def, Option.some.injEq]
    grind

/-- Numerals are read from between separators, with blanks around them. -/
theorem mapM_pieces_eq_some_iff (hblank : isBlank sep = false) (hd : sep.isDigit = false)
    (hplus : sep ≠ '+') : ((pieces sep s).mapM fun p => uint32? (trim p)) = some is ↔
      ∃ ps, s = join [sep] ps ∧ ps ≠ [] ∧ List.Forall₂ (fun p i => IsNumeral (trim p) i) ps is := by
  simp only [mapM_eq_some_iff, uint32?_eq_some_iff]
  constructor
  · exact fun h => ⟨pieces sep s, (join_pieces sep s).symm, pieces_ne_nil sep s, h⟩
  · rintro ⟨ps, rfl, hne, h⟩
    have hsep : ∀ p i, IsNumeral (trim p) i → sep ∉ p ∧ IsNumeral (trim p) i :=
      fun p i hp => ⟨fun hmem => hp.notMem hd hplus (mem_trim hmem hblank), hp⟩
    rw [pieces_join hne ((List.forall₂_and_left ps is).1 (h.imp hsep)).1]
    exact h

/-! ## Lower case -/

/-- Small letters are not ASCII, but for that of the Kelvin sign. -/
theorem small_of_mem_capitalRuns : ∀ r ∈ capitalRuns, r.first = r.last ∧ r.small = 'k'.toNat ∨
    128 ≤ r.small ∧ (r.small + (r.last - r.first) < 0xD800 ∨
      0xDFFF < r.small ∧ r.small + (r.last - r.first) < 0x110000) := by
  decide +kernel

theorem toNat_ofNat {n : Nat} (h : n.isValidChar) : (Char.ofNat n).toNat = n := by
  rw [Char.ofNat, dif_pos h]
  rfl

theorem toLower_of_le {c : Char} (h : 128 ≤ c.toNat) : c.toLower = c := by
  refine dif_neg ?_
  rintro ⟨-, hlast⟩
  exact Nat.not_lt.2 h (Nat.lt_of_le_of_lt (UInt32.le_iff_toNat_le.1 hlast) (by decide))

/-- In lower case a character that is not ASCII still has one that is not, or is the Kelvin sign. -/
theorem exists_mem_lowerChar {c : Char} (h : 128 ≤ c.toNat) :
    ∃ x ∈ lowerChar c, 128 ≤ x.toNat ∨ x = 'k' := by
  rw [lowerChar, if_neg (Nat.not_lt.2 h)]
  split
  · exact ⟨'\u0307', by simp, by decide⟩
  split
  · rename_i k hk
    obtain ⟨r, hr, hsmall⟩ := List.exists_of_findSome?_eq_some hk
    rw [CapitalRun.small?, Option.ite_none_right_eq_some, Option.some.injEq] at hsmall
    obtain ⟨⟨hfirst, hlast, -⟩, rfl⟩ := hsmall
    refine ⟨_, List.mem_singleton_self _, ?_⟩
    rcases small_of_mem_capitalRuns r hr with ⟨hlone, hkelvin⟩ | ⟨hlow, hvalid⟩
    · refine .inr ?_
      have hzero : c.toNat - r.first = 0 := by omega
      rw [hzero, Nat.add_zero, hkelvin, Char.ofNat_toNat]
    · refine .inl ?_
      rw [toNat_ofNat (by omega)]
      omega
  · exact ⟨c, List.mem_singleton_self c, .inl h⟩

/-- An ASCII text without `k` comes from ASCII letters only, whatever their case. -/
theorem lower_eq_iff {s word : List Char} (hword : ∀ c ∈ word, c.toNat < 128 ∧ c ≠ 'k') :
    lower s = word ↔ s.map Char.toLower = word := by
  induction s generalizing word with
  | nil => rfl
  | cons c s ih =>
    rw [lower, List.flatMap_cons, List.map_cons]
    by_cases hc : c.toNat < 128
    · rw [lowerChar, if_pos hc, List.singleton_append]
      cases word with
      | nil => simp
      | cons x word =>
        rw [List.cons.injEq, List.cons.injEq]
        exact and_congr_right fun _ => ih (List.forall_mem_cons.1 hword).2
    · rw [Nat.not_lt] at hc
      refine iff_of_false (fun h => ?_) fun h => ?_
      · obtain ⟨x, hx, hbad⟩ := exists_mem_lowerChar hc
        obtain ⟨hascii, hk⟩ := hword x (h ▸ List.mem_append_left _ hx)
        exact hbad.elim (Nat.not_le.2 hascii) hk
      · have hmem : c.toLower ∈ word := h ▸ List.mem_cons_self
        rw [toLower_of_le hc] at hmem
        exact Nat.not_le.2 (hword c hmem).1 hc

end CouplingMap.Text
