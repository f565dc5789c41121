import CouplingMap.Json.Decoder
import CouplingMap.Proofs.Binary64.Rounding
import CouplingMap.Proofs.Decimal.Shortest
import CouplingMap.Proofs.Json.Numeral

/-!
# Doubles in texts

A double is written as the parts of its shortest decimal. These parts stand for the decimal, but the
reader gathers all digits in one number and rounds it before it rounds once more for the power of
ten. Only if the digits are a double, and the power of ten is one as well, is there a single
rounding and with it the double that was written.

* `Numeral.ofDouble`: the parts of the text that is written for a double. They are well-formed and
  stand for its shortest decimal (`chars_ofDouble`, `wellFormed_ofDouble`, `value_ofDouble`).
* `Numeral.range_ofDouble`: how many digits there are, and how far down they reach.
* `Numeral.Precise`, `Numeral.number_ofDouble`: digits that are not rounded, which are read as the
  double that they were written for.
-/

namespace CouplingMap.Json

open Decimal

-- Powers of naturals are those of the core library wherever this is imported.
attribute [local instance (high)] instPowNat

namespace Numeral

variable {t : Numeral} {rest ds : List Char} {x : Binary64} {negative : Bool}

/-! ## What the parts stand for -/

/-- All digits of the parts, as one number. -/
def significand (t : Numeral) : Nat := Nat.ofDigitChars 10 (t.whole ++ t.fraction) 0

/-- The power of ten that goes with all digits. -/
def power (t : Numeral) : Int := exponentValue t.exponent - t.fraction.length

/-- The parts of a number that has a point or an exponent, and digits that fit 64 bits. -/
theorem number_eq (h : t.significand < UInt64.size) (hpoint : t.fraction ≠ [] ∨ t.exponent ≠ none) :
    t.number = double t.negative t.significand t.power := by
  have hsplit : t.significand = Nat.ofDigitChars 10 t.fraction (Nat.ofDigitChars 10 t.whole 0) :=
    Nat.ofDigitChars_append 0
  have hle := le_ofDigitChars t.fraction (Nat.ofDigitChars 10 t.whole 0)
  have hwhole : gather 0 t.whole = (Nat.ofDigitChars 10 t.whole 0, []) :=
    gather_eq (Nat.lt_of_le_of_lt hle (hsplit ▸ h))
  have hfraction : gather (Nat.ofDigitChars 10 t.whole 0) t.fraction = (t.significand, []) := by
    rw [hsplit, gather_eq (hsplit ▸ h)]
  have hdouble : ¬ (t.fraction = [] ∧ t.exponent = none) := fun ⟨hfraction, hexponent⟩ =>
    hpoint.elim (absurd hfraction) (absurd hexponent)
  have hplaces : ((0 : Nat) : Int) - (t.fraction.length - (0 : Nat)) + exponentValue t.exponent =
      t.power := by
    unfold power
    omega
  unfold number
  simp only [hwhole, and_true, hdouble, if_false, hfraction, List.length_nil, hplaces]

/-! ## The parts of a decimal -/

/-- The parts of digits with a point after the first `point` of them. -/
def ofPositional (negative : Bool) (ds : List Char) (point : Int) : Numeral :=
  if point ≤ 0 then ⟨negative, ['0'], List.replicate (-point).toNat '0' ++ ds, none⟩
  else if (ds.length : Int) ≤ point then
    ⟨negative, ds ++ List.replicate (point.toNat - ds.length) '0', ['0'], none⟩
  else ⟨negative, ds.take point.toNat, ds.drop point.toNat, none⟩

/-- The parts of digits with a point after the first one, and an exponent. -/
def ofScientific (negative : Bool) (ds : List Char) (exponent : Int) : Numeral :=
  ⟨negative, ds.take 1, ds.drop 1, some (exponent < 0, Text.digits exponent.natAbs)⟩

/-- The parts of the text that is written for a decimal. -/
def ofDecimal (negative : Bool) (d : Decimal) : Numeral :=
  let ds := Text.digits d.significand
  let point : Int := ds.length + d.exponent
  if -5 < point ∧ point ≤ 16 then ofPositional negative ds point
  else ofScientific negative ds (point - 1)

/-- The parts of the text that is written for a double. -/
def ofDouble (x : Binary64) : Numeral :=
  if x.isZero then ⟨x.isNegative, ['0'], ['0'], none⟩ else ofDecimal x.isNegative (shortest x)

/-- A text with a sign. -/
def signed (negative : Bool) (cs : List Char) : List Char := if negative then '-' :: cs else cs

theorem chars_ofPositional (hds : IsRun ds) (point : Int) :
    (ofPositional negative ds point).chars = signed negative (positional ds point) := by
  have hne := hds.1
  unfold ofPositional positional
  split
  · cases negative <;> simp [chars, signed, fractionChars, exponentChars, hne]
  · split
    · cases negative <;> simp [chars, signed, fractionChars, exponentChars]
    · have hdrop : ds.drop point.toNat ≠ [] := by
        rw [Ne, List.drop_eq_nil_iff]
        omega
      cases negative <;> simp [chars, signed, fractionChars, exponentChars, hdrop]

theorem chars_ofScientific (hds : IsRun ds) (exponent : Int) :
    (ofScientific negative ds exponent).chars = signed negative (scientific ds exponent) := by
  obtain ⟨hne, -⟩ := hds
  match ds, hne with
  | [d], _ =>
    cases negative <;> simp [ofScientific, scientific, chars, signed, fractionChars, exponentChars]
  | d :: e :: ds, _ =>
    cases negative <;> simp [ofScientific, scientific, chars, signed, fractionChars, exponentChars]

theorem chars_ofDecimal (d : Decimal) :
    (ofDecimal negative d).chars = signed negative (Number.writeDecimal d) := by
  have hds := isRun_digits d.significand
  unfold ofDecimal Number.writeDecimal
  dsimp only
  split
  · exact chars_ofPositional hds _
  · exact chars_ofScientific hds _

/-- The parts have the text that is written for the double. -/
theorem chars_ofDouble (h : x.isFinite = true) : (ofDouble x).chars = Number.writeDouble x := by
  unfold ofDouble Number.writeDouble
  rw [h]
  cases x.isZero with
  | true => cases x.isNegative <;> rfl
  | false => exact chars_ofDecimal _

/-! ## Their form -/

theorem isRun_take {k : Nat} (h : IsRun ds) (hk : 0 < k) : IsRun (ds.take k) :=
  ⟨fun hnil => h.1 ((List.take_eq_nil_iff.1 hnil).resolve_left hk.ne'),
    fun c hc => h.2 c (List.mem_of_mem_take hc)⟩

theorem isRun_append_zeros {k : Nat} (h : IsRun ds) : IsRun (ds ++ List.replicate k '0') := by
  refine ⟨List.append_ne_nil_of_left_ne_nil h.1 _, fun c hc => ?_⟩
  rcases List.mem_append.1 hc with hc | hc
  · exact h.2 c hc
  · rw [List.eq_of_mem_replicate hc]
    decide

theorem wellFormed_ofPositional (hds : IsRun ds) (hhead : ds.head? ≠ some '0') (point : Int) :
    (ofPositional negative ds point).WellFormed := by
  unfold ofPositional
  split
  · refine ⟨⟨by simp, by simp⟩, fun _ => rfl, fun c hc => ?_, nofun⟩
    rcases List.mem_append.1 hc with hc | hc
    · rw [List.eq_of_mem_replicate hc]
      decide
    · exact hds.2 c hc
  · split
    · refine ⟨isRun_append_zeros hds, fun h => absurd ?_ hhead, by simp, nofun⟩
      rwa [List.head?_append_of_ne_nil _ hds.1] at h
    · refine ⟨isRun_take hds (by omega), fun h => absurd ?_ hhead,
        fun c hc => hds.2 c (List.mem_of_mem_drop hc), nofun⟩
      rwa [List.head?_take, if_neg (by omega)] at h

theorem wellFormed_ofScientific (hds : IsRun ds) (hhead : ds.head? ≠ some '0') (exponent : Int) :
    (ofScientific negative ds exponent).WellFormed where
  whole := isRun_take hds Nat.one_pos
  plain h := by
    refine absurd ?_ hhead
    rwa [ofScientific, List.head?_take, if_neg Nat.one_ne_zero] at h
  fraction c hc := hds.2 c (List.mem_of_mem_drop hc)
  exponent := by
    rintro e ⟨⟩
    exact isRun_digits _

theorem significand_pos (hzero : ¬ x.isZero = true) : 0 < x.significand :=
  Nat.pos_of_ne_zero (Binary64.isZero_iff.not.1 hzero)

/-- The parts of a double are well-formed. -/
theorem wellFormed_ofDouble (x : Binary64) : (ofDouble x).WellFormed := by
  unfold ofDouble
  split
  · exact ⟨⟨by simp, by simp⟩, fun _ => rfl, by simp, nofun⟩
  · rename_i hzero
    have hhead := head?_digits (shortest_pos (significand_pos hzero))
    have hds := isRun_digits (shortest x).significand
    unfold ofDecimal
    dsimp only
    split
    · exact wellFormed_ofPositional hds hhead _
    · exact wellFormed_ofScientific hds hhead _

/-- The text of a double has a point or an exponent. -/
theorem point_ofDouble (x : Binary64) :
    (ofDouble x).fraction ≠ [] ∨ (ofDouble x).exponent ≠ none := by
  have hne := Text.digits_ne_nil (shortest x).significand
  unfold ofDouble ofDecimal ofPositional
  dsimp only
  split
  · exact Or.inl (List.cons_ne_nil _ _)
  · split
    · refine Or.inl ?_
      split
      · exact List.append_ne_nil_of_right_ne_nil _ hne
      · split
        · exact List.cons_ne_nil _ _
        · rw [Ne, List.drop_eq_nil_iff]
          omega
    · exact Or.inr nofun

theorem negative_ofDouble (x : Binary64) : (ofDouble x).negative = x.isNegative := by
  unfold ofDouble ofDecimal ofPositional
  dsimp only
  split
  · rfl
  · split
    · split
      · rfl
      · split <;> rfl
    · rfl

/-! ## Their value -/

theorem ofDigitChars_zeros (k n : Nat) :
    Nat.ofDigitChars 10 (List.replicate k '0') n = n * 10 ^ k := by
  rw [Nat.ofDigitChars_replicate_zero, Nat.mul_comm]

/-- Around a point the digits stay as they are, or zeros are put after them, one of them after the
point. -/
theorem exists_shift_ofPositional (negative : Bool) (ds : List Char) (point : Int) : ∃ k : Nat,
    (ofPositional negative ds point).significand = Nat.ofDigitChars 10 ds 0 * 10 ^ k ∧
      (ofPositional negative ds point).power = point - ds.length - k ∧
      (k = 0 ∨ point + 1 = (ds.length + k : Nat)) := by
  unfold ofPositional significand power
  split
  · refine ⟨0, ?_, ?_, Or.inl rfl⟩
    · rw [← List.append_assoc, Nat.ofDigitChars_append, List.singleton_append,
        ← List.replicate_succ, ofDigitChars_zeros, Nat.zero_mul, Nat.pow_zero, Nat.mul_one]
    · simp [exponentValue]
      omega
  · split
    · refine ⟨point.toNat - ds.length + 1, ?_, ?_, Or.inr (by omega)⟩
      · rw [List.append_assoc, Nat.ofDigitChars_append, ← List.replicate_succ',
          ofDigitChars_zeros]
      · simp [exponentValue]
        omega
    · refine ⟨0, ?_, ?_, Or.inl rfl⟩
      · rw [List.take_append_drop, Nat.pow_zero, Nat.mul_one]
      · simp [exponentValue]
        omega

/-- An exponent is the value of its sign and digits. -/
theorem exponentValue_digits (e : Int) :
    exponentValue (some (decide (e < 0), Text.digits e.natAbs)) = e := by
  have hdigits : Nat.ofDigitChars 10 (Text.digits e.natAbs) 0 = e.natAbs :=
    Nat.ofDigitChars_ten_toDigits
  simp only [exponentValue, hdigits, decide_eq_true_eq]
  split <;> omega

/-- With an exponent the digits stay as they are. -/
theorem shift_ofScientific (negative : Bool) (ds : List Char) (e : Int) :
    (ofScientific negative ds e).significand = Nat.ofDigitChars 10 ds 0 ∧
      (ofScientific negative ds e).power = e - (ds.length - 1 : Nat) := by
  unfold ofScientific significand power
  constructor
  · rw [List.take_append_drop]
  · rw [exponentValue_digits, List.length_drop]

/-- The digits are those of the decimal, or zeros after them make them up to one digit after the
point. -/
theorem exists_shift_ofDecimal (negative : Bool) (d : Decimal) : ∃ k : Nat,
    (ofDecimal negative d).significand = d.significand * 10 ^ k ∧
      (ofDecimal negative d).power = d.exponent - k ∧
      (k = 0 ∨ (ofDecimal negative d).power = -1 ∧
        (ofDecimal negative d).significand < 10 ^ 17) := by
  have hvalue : Nat.ofDigitChars 10 (Text.digits d.significand) 0 = d.significand :=
    Nat.ofDigitChars_ten_toDigits
  have hlength : 0 < (Text.digits d.significand).length :=
    List.length_pos_iff.2 (Text.digits_ne_nil _)
  have hlt : d.significand < 10 ^ (Text.digits d.significand).length :=
    (Nat.length_toDigits_le_iff (by decide) hlength).1 (Nat.le_refl _)
  unfold ofDecimal
  dsimp only
  generalize Text.digits d.significand = ds at *
  split
  · rename_i hrange
    obtain ⟨k, hsignificand, hpower, hzeros⟩ :=
      exists_shift_ofPositional negative ds (ds.length + d.exponent)
    rw [hvalue] at hsignificand
    refine ⟨k, hsignificand, by omega, hzeros.imp_right fun hk => ⟨by omega, ?_⟩⟩
    have hplaces : 10 ^ (ds.length + k) ≤ 10 ^ 17 := Nat.pow_le_pow_right (by decide) (by omega)
    rw [hsignificand]
    refine Nat.lt_of_lt_of_le ?_ hplaces
    rw [Nat.pow_add]
    exact Nat.mul_lt_mul_of_pos_right hlt (Nat.pow_pos (by decide))
  · obtain ⟨hsignificand, hpower⟩ :=
      shift_ofScientific negative ds (ds.length + d.exponent - 1)
    refine ⟨0, ?_, by omega, Or.inl rfl⟩
    rw [hsignificand, hvalue, Nat.pow_zero, Nat.mul_one]

/-- The digits and the power of ten of a double stand for its shortest decimal. -/
theorem value_ofDouble (hzero : ¬ x.isZero = true) :
    ((ofDouble x).significand : ℚ) * 10 ^ (ofDouble x).power =
      (shortest x).significand * 10 ^ (shortest x).exponent := by
  obtain ⟨k, hsignificand, hpower, -⟩ := exists_shift_ofDecimal x.isNegative (shortest x)
  rw [ofDouble, if_neg hzero, hsignificand, hpower, Nat.cast_mul, Nat.cast_pow,
    Nat.cast_ofNat (R := ℚ) (n := 10), zpow_sub₀ (by norm_num), zpow_natCast]
  field_simp

/-- A double that is not zero has up to seventeen digits in its text, none of them below the last
place of the least double. -/
theorem range_ofDouble (hzero : ¬ x.isZero = true) : 0 < (ofDouble x).significand ∧
    (ofDouble x).significand < 10 ^ 17 ∧ -324 ≤ (ofDouble x).power := by
  have hpos := significand_pos hzero
  obtain ⟨k, hsignificand, hpower, hk⟩ := exists_shift_ofDecimal x.isNegative (shortest x)
  rw [ofDouble, if_neg hzero]
  refine ⟨?_, ?_⟩
  · rw [hsignificand]
    exact Nat.mul_pos (shortest_pos hpos) (Nat.pow_pos (by decide))
  · rcases hk with rfl | ⟨hlast, hlt⟩
    · rw [hsignificand, hpower, Nat.pow_zero, Nat.mul_one, Nat.cast_zero, sub_zero]
      exact ⟨shortest_lt hpos, le_shortest_exponent hpos⟩
    · exact ⟨hlt, by omega⟩

/-! ## Digits that are not rounded -/

/-- Digits that have at most 53 bits before their last zero bits, and a power of ten that is a
double. -/
structure Precise (t : Numeral) : Prop where
  digits : ∃ b ≤ 11, 2 ^ b ∣ t.significand ∧ t.significand < 2 ^ 53 * 2 ^ b
  power : t.power.natAbs ≤ 22

instance : DecidablePred Precise := fun t =>
  decidable_of_iff ((∃ b ≤ 11, 2 ^ b ∣ t.significand ∧ t.significand < 2 ^ 53 * 2 ^ b) ∧
    t.power.natAbs ≤ 22) ⟨fun h => ⟨h.1, h.2⟩, fun h => ⟨h.digits, h.power⟩⟩

/-- A product with a power of ten, or a quotient by one, is rounded to the double that it is in the
interval of. -/
theorem scaleByTen_of_contains {f : Binary64} {k : Int} (hf : f.isNegative = false)
    (hx : 0 < x.significand) (hfinite : x.isFinite = true) (hk : k.natAbs ≤ 22)
    (h : (Interval.of x).Contains (f.magnitude * 10 ^ k)) :
    scaleByTen f k = some (Binary64.ofMagnitude false x.pattern) := by
  have hwithin := Binary64.isFinite_ofMagnitude false (Binary64.pattern_lt hfinite)
  cases k with
  | ofNat k =>
    have hten := Binary64.magnitude_tenPow (k := k) hk
    have hproduct : f.mul (Binary64.tenPow k) = Binary64.ofMagnitude false x.pattern := by
      rw [Binary64.mul_of_contains hx hfinite, hf, Binary64.isNegative_tenPow, bne_self_eq_false]
      rwa [hten]
    have hpower : k ≤ largestPower := Nat.le_trans hk (by decide)
    simp only [scaleByTen, hpower, if_true, hproduct, hwithin]
  | negSucc k =>
    have hk : k + 1 ≤ 22 := hk
    have hten := Binary64.magnitude_tenPow hk
    have hquotient : f.div (Binary64.tenPow (k + 1)) = Binary64.ofMagnitude false x.pattern := by
      rw [Binary64.div_of_contains hx hfinite (Binary64.significand_tenPow_pos hk), hf,
        Binary64.isNegative_tenPow, bne_self_eq_false]
      rwa [hten, div_eq_mul_inv, ← zpow_negSucc]
    have hpower : k + 1 ≤ largestPower := Nat.le_trans hk (by decide)
    rw [scaleByTen, shrink, if_pos hpower, hquotient]

/-- The text of zero is read as zero. -/
theorem number_ofDouble_zero (hzero : x.isZero = true) :
    (ofDouble x).number = .ok (.double x) := by
  have hnone : x.pattern = 0 := by
    rw [← Binary64.bits_mod]
    exact of_decide_eq_true hzero
  have hself := Binary64.ofMagnitude_pattern x
  rw [hnone] at hself
  rw [ofDouble, if_pos hzero, ← hself]
  cases x.isNegative <;> decide

/-- The text of a double is read as what its digits are scaled to, with its sign. -/
theorem number_ofDouble_eq {k : Nat} (hzero : ¬ x.isZero = true) (hk : k < 2 ^ 63)
    (h : scaleByTen (Binary64.ofNat (ofDouble x).significand) (ofDouble x).power =
      some (Binary64.ofMagnitude false k)) :
    (ofDouble x).number = .ok (.double (Binary64.ofMagnitude x.isNegative k)) := by
  have hfits : (ofDouble x).significand < UInt64.size :=
    (range_ofDouble hzero).2.1.trans (by decide)
  rw [number_eq hfits (point_ofDouble x), double, h, negative_ofDouble]
  dsimp only
  rw [Binary64.neg_ofMagnitude hk]
  cases x.isNegative <;> rfl

/-- A double is the value of its parts if their digits are not rounded. -/
theorem number_ofDouble (hfinite : x.isFinite = true) (h : (ofDouble x).Precise) :
    (ofDouble x).number = .ok (.double x) := by
  by_cases hzero : x.isZero = true
  · exact number_ofDouble_zero hzero
  · have hpos := significand_pos hzero
    obtain ⟨⟨b, hb, ⟨k, hk⟩, hlt⟩, hpower⟩ := h
    have hdigits : (ofDouble x).significand = k * 2 ^ b := hk.trans (Nat.mul_comm _ _)
    have hk : k < 2 ^ 53 := Nat.lt_of_mul_lt_mul_right (hdigits ▸ hlt)
    have hmagnitude := Binary64.magnitude_ofNat (b := b) hk (by omega)
    have hscaled : scaleByTen (Binary64.ofNat (ofDouble x).significand) (ofDouble x).power =
        some (Binary64.ofMagnitude false x.pattern) := by
      refine scaleByTen_of_contains (Binary64.isNegative_ofNat _) hpos hfinite hpower ?_
      have hvalue := value_ofDouble hzero
      rw [hdigits] at hvalue ⊢
      rw [hmagnitude]
      push_cast at hvalue
      rw [hvalue]
      exact contains_shortest hpos
    rw [number_ofDouble_eq hzero x.pattern_lt_two_pow hscaled, Binary64.ofMagnitude_pattern]

end Numeral

end CouplingMap.Json
