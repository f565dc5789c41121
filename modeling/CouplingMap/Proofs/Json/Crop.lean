import CouplingMap.Proofs.Json.Drift
import CouplingMap.Proofs.Json.Quoted

/-!
# Cut texts

A reader of a text that has been cut sees fewer characters, and there are two things that it may
make of this. Inside of a string it runs out of text. Inside of a number it may as well take the
digits that are left for the whole number, which then has to be one that can be read.

* `Truncates`: the texts that are left of a text when it is cut.
* `Drained`: what a reader may answer if it reads up to a cut.
* `Quoted.read_of_truncates`: a string that is cut has no end.
* `Numeral.Crop`: what may be left of the parts of a number. `Numeral.scan_of_truncates` says that
  nothing else is left.
* `Numeral.exists_number_of_crop_natural`, `Numeral.exists_number_of_crop`: what is left of an
  integer or of a finite double is never too large.
-/

namespace CouplingMap.Json

-- Powers of naturals are those of the core library wherever this is imported.
attribute [local instance (high)] instPowNat

variable {p q cs xs ys rest : List Char} {c : Char}

/-! ## Texts that are cut -/

/-- The first text is what is left of the second one, which goes on. -/
def Truncates (p cs : List Char) : Prop := ∃ c rest, cs = p ++ c :: rest

theorem not_truncates_nil : ¬ Truncates p [] := by
  rintro ⟨c, rest, h⟩
  exact List.append_ne_nil_of_right_ne_nil p (List.cons_ne_nil c rest) h.symm

/-- The cut is in the first character or after it. -/
theorem truncates_cons : Truncates p (c :: cs) ↔ p = [] ∨ ∃ q, p = c :: q ∧ Truncates q cs := by
  constructor
  · rintro ⟨d, rest, h⟩
    cases p with
    | nil => exact Or.inl rfl
    | cons c' p =>
      obtain ⟨rfl, rfl⟩ := List.cons_eq_cons.1 h
      exact Or.inr ⟨p, rfl, d, rest, rfl⟩
  · rintro (rfl | ⟨q, rfl, d, rest, rfl⟩)
    · exact ⟨c, cs, rfl⟩
    · exact ⟨d, rest, rfl⟩

theorem Truncates.cons (h : Truncates p cs) : Truncates (c :: p) (c :: cs) :=
  truncates_cons.2 (Or.inr ⟨p, rfl, h⟩)

/-- The cut is in the first part or after it. -/
theorem truncates_append :
    Truncates p (xs ++ ys) ↔ Truncates p xs ∨ ∃ q, p = xs ++ q ∧ Truncates q ys := by
  induction xs generalizing p with
  | nil => simp [not_truncates_nil]
  | cons x xs ih =>
    rw [List.cons_append, truncates_cons, truncates_cons]
    simp only [ih, List.cons_append]
    constructor
    · rintro (rfl | ⟨q, rfl, h | ⟨r, rfl, h⟩⟩)
      · exact Or.inl (Or.inl rfl)
      · exact Or.inl (Or.inr ⟨q, rfl, h⟩)
      · exact Or.inr ⟨r, rfl, h⟩
    · rintro ((rfl | ⟨q, rfl, h⟩) | ⟨r, rfl, h⟩)
      · exact Or.inl rfl
      · exact Or.inr ⟨q, rfl, Or.inl h⟩
      · exact Or.inr ⟨xs ++ r, rfl, Or.inr ⟨r, rfl, h⟩⟩

theorem truncates_singleton : Truncates p [c] ↔ p = [] := by
  simp [truncates_cons, not_truncates_nil]

theorem Truncates.append_right (h : Truncates p xs) (ys : List Char) : Truncates p (xs ++ ys) :=
  truncates_append.2 (Or.inl h)

/-- Fewer characters are left. -/
theorem truncates_iff_take : Truncates p cs ↔ ∃ k < cs.length, cs.take k = p := by
  constructor
  · rintro ⟨c, rest, rfl⟩
    exact ⟨p.length, by simp, List.take_left⟩
  · rintro ⟨k, hk, rfl⟩
    exact ⟨cs[k], cs.drop (k + 1), by rw [← List.drop_eq_getElem_cons, List.take_append_drop]⟩

theorem Truncates.initial (h : Truncates p cs) : p <+: cs := by
  obtain ⟨c, rest, rfl⟩ := h
  exact List.prefix_append p _

/-- What is left starts like the text. -/
theorem Truncates.head? (h : Truncates p cs) : ∀ c ∈ p.head?, c ∈ cs.head? := by
  obtain ⟨d, rest, rfl⟩ := h
  cases p with
  | nil => exact nofun
  | cons c p => exact fun _ hc => hc

/-- What is left of the rest of a text can follow a number if the rest can. -/
theorem Truncates.ends (h : Truncates p cs) (hends : Numeral.Ends cs) : Numeral.Ends p :=
  fun c hc => hends c (h.head? c hc)

/-- What is left behind blanks. -/
theorem Blank.skipSpace_truncates {b : List Char} (hb : Blank b) (hc : isSpace c = false)
    (h : Truncates p (b ++ c :: cs)) :
    skipSpace p = [] ∨ ∃ q, skipSpace p = c :: q ∧ Truncates q cs := by
  rcases truncates_append.1 h with ⟨d, rest, rfl⟩ | ⟨q, rfl, hq⟩
  · have hp : Blank p := fun e he => hb e (List.mem_append_left _ he)
    exact Or.inl ((congrArg skipSpace (List.append_nil p)).symm.trans hp.skipSpace_append)
  · rw [hb.skipSpace_append]
    rcases truncates_cons.1 hq with rfl | ⟨r, rfl, hr⟩
    · exact Or.inl rfl
    · exact Or.inr ⟨r, (Solid.cons hc).skipSpace_eq, hr⟩

/-- Only blanks are left behind blanks if the cut is in the last character. -/
theorem Blank.skipSpace_truncates_singleton {b : List Char} (hb : Blank b) (hc : isSpace c = false)
    (h : Truncates p (b ++ [c])) : skipSpace p = [] :=
  (hb.skipSpace_truncates hc h).resolve_right fun ⟨_, _, hq⟩ => not_truncates_nil hq

/-- A reader that comes to the end of the text has run out of it, or has used it up. -/
def Drained {α : Type} (x : Except ReadError (α × List Char)) : Prop :=
  x = .error .ended ∨ ∃ a, x = .ok (a, [])

/-! ## Strings -/

namespace Quoted

variable {bound done : List Char}

/-- The code of a control character that is cut has no end. -/
theorem escape_take_control : ∀ n < 0x20, ∀ k < 5,
    escape (['u', '0', '0', hexDigit (n / 16), hexDigit (n % 16)].take k) = .error .ended := by
  decide

/-- What is left of the written form of a character is nothing, or an escape that has no end. -/
theorem writeChar_of_truncates (h : Truncates p (writeChar c)) :
    p = [] ∨ ∃ q, p = '\\' :: q ∧ escape q = .error .ended := by
  unfold writeChar at h
  split at h
  iterate 7
    refine (truncates_cons.1 h).imp_right fun ⟨q, hp, hq⟩ => ⟨q, hp, ?_⟩
    rw [truncates_singleton.1 hq]
    rfl
  split at h
  · rename_i hcontrol
    refine (truncates_cons.1 h).imp_right fun ⟨q, hp, hq⟩ => ⟨q, hp, ?_⟩
    obtain ⟨k, hk, rfl⟩ := truncates_iff_take.1 hq
    exact escape_take_control c.toNat (of_decide_eq_true hcontrol) k hk
  · exact Or.inl (truncates_singleton.1 h)

theorem charsFrom_nil : charsFrom escape bound done [] = .error .ended := by
  cases bound <;> rfl

/-- Characters that are cut have no closing quote. -/
theorem charsFrom_of_truncates {s : List Char} (h : Truncates p (s.flatMap writeChar ++ ['"'])) :
    charsFrom escape bound done p = .error .ended := by
  induction s generalizing p bound done with
  | nil =>
    rw [truncates_singleton.1 h]
    exact charsFrom_nil
  | cons c s ih =>
    rw [List.flatMap_cons, List.append_assoc] at h
    cases bound with
    | nil => rfl
    | cons b bound =>
      rcases truncates_append.1 h with h | ⟨q, rfl, hq⟩
      · rcases writeChar_of_truncates h with rfl | ⟨q, rfl, hq⟩
        · exact charsFrom_nil
        · exact congrArg (· >>= _) hq
      · rw [charsFrom_writeChar]
        exact ih hq

/-- A string that is cut behind its opening quote has no end. -/
theorem read_of_truncates {s : String} (h : Truncates p (s.toList.flatMap writeChar ++ ['"'])) :
    read p = .error .ended :=
  congrArg (· >>= _) (charsFrom_of_truncates h)

end Quoted

/-! ## Numbers -/

namespace Numeral

open Decimal

variable {t t' : Numeral} {ds w : List Char}

/-- What may be left of the parts of a number: some digits before the point, some after it, or some
of the exponent. -/
inductive Crop (t : Numeral) : Numeral → Prop
  | whole {w : List Char} (hne : w ≠ []) (h : w <+: t.whole) : Crop t ⟨t.negative, w, [], none⟩
  | fraction {w : List Char} (h : w <+: t.fraction) : Crop t ⟨t.negative, t.whole, w, none⟩
  | exponent {negative : Bool} {ds w : List Char} (heq : t.exponent = some (negative, ds))
    (hne : w ≠ []) (h : Truncates w ds) :
    Crop t ⟨t.negative, t.whole, t.fraction, some (negative, w)⟩

/-- What is left is well-formed. -/
theorem Crop.wellFormed (hcrop : Crop t t') (h : t.WellFormed) : t'.WellFormed := by
  cases hcrop with
  | @whole w hne hw =>
    refine ⟨⟨hne, fun c hc => h.whole.2 c (hw.subset hc)⟩, fun hzero => ?_, by simp, nofun⟩
    have hhead : t.whole.head? = w.head? := by
      obtain ⟨rest, heq⟩ := hw
      rw [← heq, List.head?_append_of_ne_nil _ hne]
    rw [h.plain (hhead.trans hzero)] at hw
    exact hw.eq_of_length_le (List.length_pos_iff.2 hne)
  | fraction hw => exact ⟨h.whole, h.plain, fun c hc => h.fraction c (hw.subset hc), nofun⟩
  | exponent heq hne hw =>
    refine ⟨h.whole, h.plain, h.fraction, ?_⟩
    rintro e ⟨⟩
    exact ⟨hne, fun c hc => (h.exponent _ heq).2 c (hw.initial.subset hc)⟩

theorem scan_sign (negative : Bool) :
    scan .ended (if negative then ['-'] else []) = .error .ended := by
  cases negative <;> rfl

/-- A fraction that is cut has no digit, or it is left out, or some digits of it are left. -/
theorem fraction_of_truncates (h : Truncates p (fractionChars ds)) :
    p = ['.'] ∨ ∃ w, w <+: ds ∧ fractionChars w = p := by
  unfold fractionChars at h
  split at h
  · exact absurd h not_truncates_nil
  · rcases truncates_cons.1 h with rfl | ⟨q, rfl, hq⟩
    · exact Or.inr ⟨[], List.nil_prefix, rfl⟩
    · by_cases hne : q = []
      · exact Or.inl (congrArg _ hne)
      · exact Or.inr ⟨q, hq.initial, if_neg hne⟩

/-- An exponent that is cut is left out, or it has no digit, or some digits of it are left. -/
theorem exponent_of_truncates {e : Option (Bool × List Char)} (h : Truncates p (exponentChars e)) :
    p = [] ∨ scanExponent .ended p = .error .ended ∨ ∃ negative ds w, e = some (negative, ds) ∧
      w ≠ [] ∧ Truncates w ds ∧ exponentChars (some (negative, w)) = p := by
  cases e with
  | none => exact absurd h not_truncates_nil
  | some e =>
    obtain ⟨negative, ds⟩ := e
    refine (truncates_cons.1 h).imp_right ?_
    rintro ⟨q, rfl, hq⟩
    rcases truncates_cons.1 hq with rfl | ⟨w, rfl, hw⟩
    · exact Or.inl rfl
    · by_cases hne : w = []
      · subst w
        cases negative <;> exact Or.inl rfl
      · exact Or.inr ⟨negative, ds, w, rfl, hne, hw, rfl⟩

/-- A number that is cut has no end, or what is left is a number again. -/
theorem scan_of_truncates (h : t.WellFormed) (hp : Truncates p t.chars) :
    scan .ended p = .error .ended ∨ ∃ t', Crop t t' ∧ t'.chars = p := by
  have hscan {cs : List Char} (hcs : ∀ c ∈ cs.head?, c.isDigit = false) :
      scan .ended (_ ++ (t.whole ++ cs)) = _ := scan_append t.negative h.whole h.plain hcs
  rcases truncates_append.1 hp with hsign | ⟨q, rfl, hq⟩
  · -- The cut is before the sign, if there is one.
    split at hsign
    · exact Or.inl (congrArg (scan .ended) (truncates_singleton.1 hsign))
    · exact absurd hsign not_truncates_nil
  rcases truncates_append.1 hq with hw | ⟨r, rfl, hr⟩
  · -- The cut is in the digits before the point. At least one of them is needed.
    by_cases hne : q = []
    · rw [hne, List.append_nil]
      exact Or.inl (scan_sign t.negative)
    · exact Or.inr ⟨_, .whole hne hw.initial, by simp [chars, fractionChars, exponentChars]⟩
  rcases truncates_append.1 hr with hf | ⟨u, rfl, hu⟩
  · -- The cut is in the fraction, which may go with its point.
    rcases fraction_of_truncates hf with rfl | ⟨w, hw, rfl⟩
    · have hpoint : ∀ c ∈ ['.'].head?, c.isDigit = false := by
        rintro c ⟨⟩
        decide
      refine Or.inl ?_
      rw [hscan hpoint]
      rfl
    · exact Or.inr ⟨_, .fraction hw, by simp [chars, exponentChars]⟩
  · -- The cut is in the exponent, which may go with its letter.
    rcases exponent_of_truncates hu with rfl | hnone | ⟨negative, ds, w, heq, hne, hw, rfl⟩
    · exact Or.inr ⟨_, .fraction (List.prefix_rfl), by simp [chars, exponentChars]⟩
    · refine Or.inl ?_
      have hhead : ∀ c ∈ u.head?, c.isDigit = false ∧ c ≠ '.' := fun c hc =>
        head?_exponentChars Ends.nil c ((hu.append_right []).head? c hc)
      have hfraction : scanFraction .ended (fractionChars t.fraction ++ u) = .ok (t.fraction, u) :=
        scanFraction_append h.fraction hhead
      rw [hscan (head?_fractionChars _ fun c hc => (hhead c hc).1), hfraction]
      show (scanExponent .ended u >>= _) = _
      rw [hnone]
      rfl
    · exact Or.inr ⟨_, .exponent heq hne hw, rfl⟩

/-! ## The numbers that are left -/

theorem ofDigitChars_le (h : w <+: ds) : Nat.ofDigitChars 10 w 0 ≤ Nat.ofDigitChars 10 ds 0 := by
  obtain ⟨rest, rfl⟩ := h
  rw [Nat.ofDigitChars_append]
  exact le_ofDigitChars rest _

/-- A cut takes off a digit, and with it a factor of ten. -/
theorem mul_ofDigitChars_le (h : Truncates w ds) :
    10 * Nat.ofDigitChars 10 w 0 ≤ Nat.ofDigitChars 10 ds 0 := by
  obtain ⟨c, rest, rfl⟩ := h
  rw [Nat.ofDigitChars_append, Nat.ofDigitChars_cons]
  exact (Nat.le_add_right _ _).trans (le_ofDigitChars rest _)

/-- The digits that are left are not more. -/
theorem Crop.significand_le (h : Crop t t') : t'.significand ≤ t.significand := by
  cases h with
  | whole hne hw =>
    refine ofDigitChars_le ?_
    rw [List.append_nil]
    exact hw.trans (List.prefix_append _ _)
  | fraction hw => exact ofDigitChars_le ((List.prefix_append_right_inj _).2 hw)
  | exponent => exact Nat.le_refl _

/-- A positive power of ten that is left is at most a tenth of the exponent. -/
theorem Crop.power_le (h : Crop t t') : 10 * t'.power ≤ max 0 (exponentValue t.exponent) := by
  cases h with
  | whole => exact le_max_left _ _
  | fraction hw =>
    refine le_max_of_le_left ?_
    simp only [power, exponentValue]
    omega
  | @exponent negative ds w heq hne hw =>
    have hvalue := mul_ofDigitChars_le hw
    rw [heq]
    cases negative <;> simp only [power, exponentValue, Bool.false_eq_true, if_false, if_true]
    · refine le_max_of_le_right ?_
      omega
    · refine le_max_of_le_left ?_
      omega

/-- What is left of the text of an integer is one that is not greater. -/
theorem exists_number_of_crop_natural {n : Nat} (hn : n < UInt64.size)
    (h : Crop ⟨false, Text.digits n, [], none⟩ t') : ∃ m ≤ n, t'.number = .ok (.integer m) := by
  have hvalue : Nat.ofDigitChars 10 (Text.digits n) 0 = n := Nat.ofDigitChars_ten_toDigits
  have hinitial {w : List Char} (hw : w <+: Text.digits n) :
      ∃ m ≤ n, number ⟨false, w, [], none⟩ = .ok (.integer m) := by
    have hle := (ofDigitChars_le hw).trans_eq hvalue
    exact ⟨_, hle, number_whole (hle.trans_lt hn)⟩
  cases h with
  | whole hne hw => exact hinitial hw
  | fraction hw =>
    rw [List.prefix_nil.1 hw]
    exact hinitial List.prefix_rfl
  | exponent heq => exact absurd heq nofun

theorem magnitude_ofNat_le {s : Nat} (hs : s < 10 ^ 17) :
    (Binary64.ofNat s).magnitude ≤ 2 * 10 ^ 17 := by
  rcases Nat.eq_zero_or_pos s with rfl | hpos
  · have hzero : (Binary64.ofNat 0).significand = 0 := by decide
    rw [Binary64.magnitude, hzero, Nat.cast_zero, zero_mul]
    norm_num
  · have hhigh := (abs_le.1 (digits_within hpos hs)).2
    have hlt : (s : ℚ) < 10 ^ 17 := mod_cast hs
    linarith

theorem magnitude_tenPow_le {k : Nat} (hk : k ≤ 308) :
    (Binary64.tenPow k).magnitude ≤ 2 * 10 ^ k := by
  have hhigh := (abs_le.1 (Binary64.tenPow_within hk)).2
  have hpos : (0 : ℚ) < 10 ^ k := by positivity
  linarith

/-- The product of up to seventeen digits and a power of ten far from the largest one is finite. -/
theorem isFinite_mul_tenPow {s k : Nat} (hs : s < 10 ^ 17) (hk : k ≤ 100) :
    ((Binary64.ofNat s).mul (Binary64.tenPow k)).isFinite = true := by
  obtain ⟨num, den, hd, hvalue, heq⟩ :=
    Binary64.exists_mul_eq (Binary64.ofNat s) (Binary64.tenPow k)
  have hmax := Binary64.cast_le_greatest (Binary64.ten_pow_le 200 (by decide))
  rw [Nat.cast_pow, Nat.cast_ofNat] at hmax
  rw [heq]
  refine Binary64.isFinite_ofRatio _ hd ?_
  calc (num : ℚ) / den = (Binary64.ofNat s).magnitude * (Binary64.tenPow k).magnitude := hvalue
    _ ≤ 2 * 10 ^ 17 * (2 * 10 ^ k) := mul_le_mul (magnitude_ofNat_le hs)
      (magnitude_tenPow_le (hk.trans (by decide))) (Binary64.magnitude_nonneg _) (by norm_num)
    _ ≤ 2 * 10 ^ 17 * (2 * 10 ^ 100) := by gcongr; norm_num
    _ ≤ 10 ^ 200 := by norm_num
    _ ≤ _ := hmax

theorem exists_scaleByTen {s : Nat} {k : Int} (hs : s < 10 ^ 17) (hk : k ≤ 100) :
    ∃ f, scaleByTen (Binary64.ofNat s) k = some f := by
  cases k with
  | negSucc k => exact ⟨_, rfl⟩
  | ofNat k =>
    have hk : k ≤ 100 := Int.ofNat_le.1 hk
    have hpower : k ≤ largestPower := hk.trans (by decide)
    refine ⟨(Binary64.ofNat s).mul (Binary64.tenPow k), ?_⟩
    simp only [scaleByTen, hpower, if_true, isFinite_mul_tenPow hs hk]

/-- Parts with digits that fit 64 bits have a value unless it is too large. -/
theorem exists_number (h : t.significand < UInt64.size)
    (hscale : ∃ f, scaleByTen (Binary64.ofNat t.significand) t.power = some f) :
    ∃ n, t.number = .ok n := by
  by_cases hpoint : t.fraction ≠ [] ∨ t.exponent ≠ none
  · obtain ⟨f, hf⟩ := hscale
    exact ⟨_, by rw [number_eq h hpoint, double, hf]⟩
  · obtain ⟨hfraction, hexponent⟩ := not_or.1 hpoint
    rw [not_not] at hfraction hexponent
    have hwhole : gather 0 t.whole = (t.significand, []) := by
      rw [significand, hfraction, List.append_nil] at h ⊢
      exact gather_eq h
    unfold number
    simp only [hwhole, hfraction, hexponent, and_self, if_true]
    split
    · split <;> exact ⟨_, rfl⟩
    · exact ⟨_, rfl⟩

/-- The exponent in the text of a finite double. -/
theorem exponentValue_ofDouble {x : Binary64} (hfinite : x.isFinite = true) :
    exponentValue (ofDouble x).exponent ≤ 324 := by
  have hnone : exponentValue none ≤ 324 := by decide
  unfold ofDouble
  split
  · exact hnone
  rename_i hzero
  have hpos := significand_pos hzero
  have hexponent : (shortest x).exponent ≤ 308 := shortest_exponent_le hpos hfinite
  have hlength : (Text.digits (shortest x).significand).length ≤ 17 :=
    (Nat.length_toDigits_le_iff (by decide) (by decide)).2 (shortest_lt hpos)
  unfold ofDecimal
  dsimp only
  split
  · unfold ofPositional
    split
    · exact hnone
    · split <;> exact hnone
  · rw [ofScientific, exponentValue_digits]
    omega

/-- What is left of the text of a finite double is a number. -/
theorem exists_number_of_crop {x : Binary64} (hfinite : x.isFinite = true)
    (h : Crop (ofDouble x) t') : ∃ n, t'.number = .ok n := by
  have hdigits : (ofDouble x).significand < 10 ^ 17 := by
    by_cases hzero : x.isZero = true
    · rw [ofDouble, if_pos hzero]
      exact (by decide : Nat.ofDigitChars 10 ['0', '0'] 0 < 10 ^ 17)
    · exact (range_ofDouble hzero).2.1
  have hs : t'.significand < 10 ^ 17 := h.significand_le.trans_lt hdigits
  have hpower := h.power_le
  have hexponent := exponentValue_ofDouble hfinite
  exact exists_number (hs.trans (by decide)) (exists_scaleByTen hs (by omega))

end Numeral

end CouplingMap.Json
