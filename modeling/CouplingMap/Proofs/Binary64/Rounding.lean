import CouplingMap.Binary64.Rounding
import CouplingMap.Proofs.Decimal.Interval
import Mathlib.Tactic.FieldSimp

/-!
# Rounding hits the interval

A quotient of integers rounds to a double just as its interval says.

* `roundDiv_of_near`: the integer that a quotient is rounded to.
* `lastBit_spec`: where the last bit of the rounded significand is.
* `ofRatio_of_contains`: a quotient in the interval of a double is rounded to it.
* `mul_of_contains`, `div_of_contains`: so are products and quotients of doubles.
* `magnitude_ofNat`, `magnitude_tenPow`: numbers of at most 53 bits, and the powers of ten up to
  `10 ^ 22`, are not changed by rounding.
-/

namespace CouplingMap.Binary64

open Decimal

-- Powers of naturals are those of the core library wherever this is imported.
attribute [local instance (high)] instPowNat

variable {x y : Binary64} {num den k : Nat} {t : ℚ} {negative : Bool}

/-! ## Integers -/

theorem roundDiv_eq (hd : 0 < den) (hlow : 2 * (k * den) ≤ 2 * num + den)
    (hhigh : 2 * num ≤ 2 * (k * den) + den)
    (hodd : k % 2 = 1 → 2 * (k * den) ≠ 2 * num + den ∧ 2 * num ≠ 2 * (k * den) + den) :
    roundDiv num den = k := by
  have hdiv := Nat.div_add_mod' num den
  have hmod := Nat.mod_lt num hd
  unfold roundDiv
  dsimp only
  generalize num / den = q at *
  generalize num % den = r at *
  -- The quotient that is cut off is `k`, or one less.
  have hqk : q ≤ k := by
    by_contra hlt
    have := Nat.mul_le_mul_right den (Nat.succ_le_of_lt (Nat.lt_of_not_le hlt))
    rw [Nat.succ_mul] at this
    omega
  have hkq : k ≤ q + 1 := by
    by_contra hlt
    have := Nat.mul_le_mul_right den (Nat.succ_le_of_lt (Nat.lt_of_not_le hlt))
    rw [Nat.succ_mul, Nat.succ_mul] at this
    omega
  obtain rfl | rfl : k = q ∨ k = q + 1 := by omega
  · rw [if_neg]
    rintro (h | ⟨h, hq⟩)
    · omega
    · exact (hodd hq).2 (by omega)
  · rw [Nat.add_one_mul q den] at hlow hhigh hodd
    rw [if_pos]
    by_contra h
    rw [not_or, not_and_or] at h
    obtain ⟨hlt, hne | hq⟩ := h
    · omega
    · exact (hodd (by omega)).1 (by omega)

/-- A quotient is rounded to the integer that it is within a half of, and within a half of an odd
one only if it is closer. -/
theorem roundDiv_of_near (hd : 0 < den) (ht : (num : ℚ) / den = t) (hlow : k - 1 / 2 ≤ t)
    (hhigh : t ≤ k + 1 / 2) (hodd : k % 2 = 1 → k - 1 / 2 < t ∧ t < k + 1 / 2) :
    roundDiv num den = k := by
  have hden : (0 : ℚ) < den := Nat.cast_pos.2 hd
  have hnum : (num : ℚ) = t * den := (div_eq_iff hden.ne').1 ht
  refine roundDiv_eq hd ?_ ?_ fun hk => ⟨fun h => ?_, fun h => ?_⟩
  · rw [← Nat.cast_le (α := ℚ)]
    push_cast
    nlinarith
  · rw [← Nat.cast_le (α := ℚ)]
    push_cast
    nlinarith
  · have h : (2 * (k * den) : ℚ) = 2 * num + den := mod_cast h
    nlinarith [(hodd hk).1]
  · have h : (2 * num : ℚ) = 2 * (k * den) + den := mod_cast h
    nlinarith [(hodd hk).2]

/-! ## The last bit -/

theorem scale_pos (e : Int) (num : Nat) (hd : 0 < den) : 0 < (scale e num den).2 :=
  Nat.mul_pos hd (Nat.pow_pos (by decide))

/-- Scaling divides by a power of two. -/
theorem scale_div (e : Int) (num den : Nat) :
    ((scale e num den).1 : ℚ) / (scale e num den).2 = num / den / 2 ^ e := by
  have h := zpow_mul_toNat (a := 2) (by norm_num) e
  have hne : (2 : ℚ) ^ (-e).toNat ≠ 0 := by positivity
  rw [scale]
  push_cast
  rw [← h, div_div]
  rw [← mul_assoc, mul_div_mul_right _ _ hne]

theorem log2_bounds (hn : 0 < num) :
    (2 : ℚ) ^ (num.log2 : Int) ≤ num ∧ (num : ℚ) < 2 * 2 ^ (num.log2 : Int) := by
  rw [zpow_natCast]
  constructor
  · exact_mod_cast Nat.log2_self_le hn.ne'
  · rw [← pow_succ']
    exact_mod_cast Nat.lt_log2_self

/-- A quotient has 53 bits above some bit, which is the last one unless it is below the bottom of
the range. -/
theorem exists_lastBit (hn : 0 < num) (hd : 0 < den) :
    ∃ e, lastBit num den = max (-1074) e ∧ 2 ^ 52 * 2 ^ e ≤ (num : ℚ) / den ∧
      (num : ℚ) / den < 2 ^ 53 * 2 ^ e := by
  obtain ⟨hnlow, hnhigh⟩ := log2_bounds hn
  obtain ⟨hdlow, hdhigh⟩ := log2_bounds hd
  have hpos : (0 : ℚ) < den := Nat.cast_pos.2 hd
  generalize he : (num.log2 : Int) - den.log2 - 53 = e
  have hpow : (2 : ℚ) ^ (num.log2 : Int) = 2 ^ 53 * 2 ^ e * 2 ^ (den.log2 : Int) := by
    rw [← zpow_natCast, ← zpow_add₀ (by norm_num), ← zpow_add₀ (by norm_num)]
    congr 1
    omega
  have hunit : (0 : ℚ) < 2 ^ e := by positivity
  -- The estimate from the logarithms is at most one too low.
  have hlow : 2 ^ 52 * 2 ^ e ≤ (num : ℚ) / den := by
    rw [le_div_iff₀ hpos]
    nlinarith
  have hhigh : (num : ℚ) / den < 2 ^ 54 * 2 ^ e := by
    rw [div_lt_iff₀ hpos]
    nlinarith
  have htest : 2 ^ (fractionBits + 1) * (scale e num den).2 ≤ (scale e num den).1 ↔
      2 ^ 53 * 2 ^ e ≤ (num : ℚ) / den := by
    have hscale : (0 : ℚ) < (scale e num den).2 := Nat.cast_pos.2 (scale_pos e num hd)
    rw [← Nat.cast_le (α := ℚ), Nat.cast_mul, ← le_div_iff₀ hscale, scale_div,
      le_div_iff₀ hunit]
    norm_num [fractionBits]
  unfold lastBit
  rw [he]
  dsimp only
  split
  · rename_i h
    refine ⟨e + 1, rfl, ?_, ?_⟩
    · have := htest.1 h
      rw [zpow_add_one₀ (by norm_num)]
      linarith
    · rw [zpow_add_one₀ (by norm_num)]
      linarith
  · rename_i h
    exact ⟨e, rfl, hlow, not_le.1 (htest.not.1 h)⟩

/-- The last bit stands where 53 bits are enough for the quotient, and 52 are not unless it stands
at the bottom of the range. -/
theorem lastBit_spec (hn : 0 < num) (hd : 0 < den) :
    -1074 ≤ lastBit num den ∧ (num : ℚ) / den < 2 ^ 53 * 2 ^ lastBit num den ∧
      (lastBit num den = -1074 ∨ 2 ^ 52 * 2 ^ lastBit num den ≤ (num : ℚ) / den) := by
  obtain ⟨e, heq, hlow, hhigh⟩ := exists_lastBit hn hd
  rw [heq]
  rcases le_total e (-1074) with h | h
  · rw [max_eq_left h]
    have hpow : (2 : ℚ) ^ e ≤ 2 ^ (-1074 : Int) := zpow_le_zpow_right₀ (by norm_num) h
    exact ⟨le_rfl, by linarith, Or.inl rfl⟩
  · rw [max_eq_right h]
    exact ⟨h, hhigh, Or.inr hlow⟩

/-! ## Doubles -/

/-- The rounding of a quotient, once the last bit is known. -/
theorem nearestMagnitude_eq {e : Int} (hd : 0 < den) (he : lastBit num den = e)
    (hround : ∀ s : Nat × Nat, 0 < s.2 → (s.1 : ℚ) / s.2 = num / den / 2 ^ e →
      roundDiv s.1 s.2 = k) :
    nearestMagnitude num den = min infinityMagnitude ((e + 1074).toNat * 2 ^ 52 + k) := by
  have hk := hround (scale e num den) (scale_pos e num hd) (scale_div e num den)
  subst he
  rw [← hk]
  rfl

/-- A quotient in the interval of a double has no higher last bit than the double. -/
theorem lastBit_le_exponent (hx : 0 < x.significand) (hn : 0 < num) (hd : 0 < den)
    (h : (Interval.of x).Contains (num / den)) : lastBit num den ≤ x.exponent := by
  obtain ⟨-, hhigh, -⟩ := ends_of_contains hx h
  obtain ⟨hbottom, -, hnarrow⟩ := lastBit_spec hn hd
  have hunit := unit_pos x
  have hm : (x.significand : ℚ) + 1 ≤ 2 ^ 53 := mod_cast x.significand_lt
  by_contra hlt
  have hpow : (2 : ℚ) ^ (x.exponent + 1) ≤ 2 ^ lastBit num den :=
    zpow_le_zpow_right₀ (by norm_num) (by omega)
  rw [zpow_add_one₀ (by norm_num)] at hpow
  have hhalf := hnarrow.resolve_left (by have := x.exponent_ge; omega)
  unfold unit at *
  nlinarith

/-- Only just below a power of two is the last bit lower. -/
theorem significand_of_lastBit_lt (hx : 0 < x.significand) (hn : 0 < num) (hd : 0 < den)
    (h : (Interval.of x).Contains (num / den)) (hlt : lastBit num den < x.exponent) :
    x.significand = 2 ^ 52 ∧ reachBelow x = 1 / 4 := by
  obtain ⟨hlow, -, -⟩ := ends_of_contains hx h
  obtain ⟨hbottom, hwide, -⟩ := lastBit_spec hn hd
  have hunit := unit_pos x
  have hreach := reachBelow_le x
  have hpow : (2 : ℚ) ^ lastBit num den ≤ 2 ^ (x.exponent - 1) :=
    zpow_le_zpow_right₀ (by norm_num) (by omega)
  rw [zpow_sub_one₀ (by norm_num)] at hpow
  have hsignificand : x.significand = 2 ^ 52 := by
    refine Nat.le_antisymm (Nat.le_of_lt_succ ?_) (x.le_significand (by omega))
    rw [← Nat.cast_lt (α := ℚ)]
    push_cast
    unfold unit at *
    nlinarith
  exact ⟨hsignificand, if_pos ⟨hsignificand, by omega⟩⟩

/-- A quotient in the interval of a double has the last bit of the double, or the one below if it is
just below a power of two. -/
theorem lastBit_of_contains (hx : 0 < x.significand) (hn : 0 < num) (hd : 0 < den)
    (h : (Interval.of x).Contains (num / den)) : lastBit num den = x.exponent ∨
      lastBit num den = x.exponent - 1 ∧ x.significand = 2 ^ 52 ∧ reachBelow x = 1 / 4 := by
  rcases (lastBit_le_exponent hx hn hd h).eq_or_lt with heq | hlt
  · exact Or.inl heq
  · obtain ⟨hsignificand, hquarter⟩ := significand_of_lastBit_lt hx hn hd h hlt
    refine Or.inr ⟨?_, hsignificand, hquarter⟩
    obtain ⟨hlow, -, -⟩ := ends_of_contains hx h
    obtain ⟨-, hwide, -⟩ := lastBit_spec hn hd
    have hunit := unit_pos x
    by_contra hne
    have hpow : (2 : ℚ) ^ lastBit num den ≤ 2 ^ (x.exponent - 2) :=
      zpow_le_zpow_right₀ (by norm_num) (by omega)
    rw [zpow_sub₀ (by norm_num)] at hpow
    rw [hsignificand, hquarter] at hlow
    push_cast at hlow
    unfold unit at *
    nlinarith

/-- A quotient in the interval of a double is rounded to it. -/
theorem nearestMagnitude_of_contains (hx : 0 < x.significand) (hfinite : x.isFinite = true)
    (hn : 0 < num) (hd : 0 < den) (h : (Interval.of x).Contains (num / den)) :
    nearestMagnitude num den = x.pattern := by
  obtain ⟨hlow, hhigh, hodd⟩ := ends_of_contains hx h
  have hunit := unit_pos x
  have hreach := reachBelow_le x
  have hpattern := (pattern_lt hfinite).le
  rcases lastBit_of_contains hx hn hd h with he | ⟨he, hm, hquarter⟩
  · rw [nearestMagnitude_eq hd he (k := x.significand), ← pattern, min_eq_right hpattern]
    intro s hs ht
    refine roundDiv_of_near hs ht ?_ ?_ fun hm => ⟨?_, ?_⟩
    · exact (le_div_iff₀ hunit).2 (le_trans (by nlinarith) hlow)
    · exact (div_le_iff₀ hunit).2 hhigh
    · exact (lt_div_iff₀ hunit).2 (lt_of_le_of_lt (by nlinarith) (hodd hm).1)
    · exact (div_lt_iff₀ hunit).2 (hodd hm).2
  · -- Below a power of two the significand has one bit more, which is carried.
    obtain ⟨hbottom, hwide, -⟩ := lastBit_spec hn hd
    rw [he] at hbottom hwide
    have hhalf : unit x = 2 * 2 ^ (x.exponent - 1) := by
      rw [unit, ← zpow_one_add₀ (by norm_num), add_sub_cancel]
    have hpos : (0 : ℚ) < 2 ^ (x.exponent - 1) := by positivity
    have heq : (x.exponent - 1 + 1074).toNat * 2 ^ 52 + 2 ^ 53 = x.pattern := by
      rw [pattern, hm]
      omega
    rw [nearestMagnitude_eq hd he (k := 2 ^ 53), heq, min_eq_right hpattern]
    intro s hs ht
    rw [hm, hquarter, hhalf] at hlow
    refine roundDiv_of_near hs ht ?_ ?_ fun hm => by omega
    · refine (le_div_iff₀ hpos).2 (le_trans ?_ hlow)
      push_cast
      linarith
    · refine ((div_lt_iff₀ hpos).2 hwide).le.trans ?_
      push_cast
      linarith

/-- A quotient in the interval of a double is rounded to the double, with the sign that is asked
for. -/
theorem ofRatio_of_contains (hx : 0 < x.significand) (hfinite : x.isFinite = true) (hd : 0 < den)
    (h : (Interval.of x).Contains (num / den)) :
    ofRatio negative num den = ofMagnitude negative x.pattern := by
  have hpos : 0 < num := by
    have hratio := pos_of_contains hx h
    refine Nat.pos_of_ne_zero fun hzero => ?_
    rw [hzero, Nat.cast_zero, zero_div] at hratio
    exact lt_irrefl _ hratio
  rw [ofRatio, if_neg hpos.ne', nearestMagnitude_of_contains hx hfinite hpos hd h]

theorem isNegative_ofRatio (negative : Bool) (num den : Nat) :
    (ofRatio negative num den).isNegative = negative := by
  unfold ofRatio
  split
  · exact isNegative_ofMagnitude (by decide)
  · exact isNegative_ofMagnitude (Nat.lt_of_le_of_lt (Nat.min_le_left _ _) (by decide))

@[simp] theorem isNegative_ofNat (n : Nat) : (ofNat n).isNegative = false :=
  isNegative_ofRatio false n 1

@[simp] theorem isNegative_tenPow (k : Nat) : (tenPow k).isNegative = false := isNegative_ofNat _

/-! ## Arithmetic -/

/-- A product is the rounded product of the magnitudes. -/
theorem exists_mul_eq (x y : Binary64) : ∃ num den : Nat, 0 < den ∧
    (num : ℚ) / den = x.magnitude * y.magnitude ∧
    x.mul y = ofRatio (x.isNegative != y.isNegative) num den := by
  refine ⟨_, _, scale_pos _ _ Nat.one_pos, ?_, rfl⟩
  rw [scale_div, zpow_neg, zpow_add₀ (by norm_num), magnitude, magnitude]
  push_cast
  field_simp

/-- A quotient is the rounded quotient of the magnitudes. -/
theorem exists_div_eq (x : Binary64) (hy : 0 < y.significand) : ∃ num den : Nat, 0 < den ∧
    (num : ℚ) / den = x.magnitude / y.magnitude ∧
    x.div y = ofRatio (x.isNegative != y.isNegative) num den := by
  refine ⟨_, _, scale_pos _ _ hy, ?_, rfl⟩
  rw [scale_div, zpow_sub₀ (by norm_num), magnitude, magnitude]
  field_simp

/-- A product in the interval of a double is rounded to it. -/
theorem mul_of_contains {z : Binary64} (hz : 0 < z.significand) (hfinite : z.isFinite = true)
    (h : (Interval.of z).Contains (x.magnitude * y.magnitude)) :
    x.mul y = ofMagnitude (x.isNegative != y.isNegative) z.pattern := by
  obtain ⟨num, den, hd, hvalue, heq⟩ := exists_mul_eq x y
  rw [heq, ofRatio_of_contains hz hfinite hd (hvalue ▸ h)]

/-- A quotient in the interval of a double is rounded to it. -/
theorem div_of_contains {z : Binary64} (hz : 0 < z.significand) (hfinite : z.isFinite = true)
    (hy : 0 < y.significand) (h : (Interval.of z).Contains (x.magnitude / y.magnitude)) :
    x.div y = ofMagnitude (x.isNegative != y.isNegative) z.pattern := by
  obtain ⟨num, den, hd, hvalue, heq⟩ := exists_div_eq x hy
  rw [heq, ofRatio_of_contains hz hfinite hd (hvalue ▸ h)]

/-! ## Numbers that are not changed -/

/-- A number of at most 53 bits, with some zeros after them, is not changed by rounding. -/
theorem magnitude_ofNat {b : Nat} (hlt : k < 2 ^ 53) (hb : b ≤ 971) :
    (ofNat (k * 2 ^ b)).magnitude = k * 2 ^ b := by
  rcases Nat.eq_zero_or_pos k with rfl | hk
  · have hzero : (zero false).significand = 0 := by decide
    rw [ofNat, ofRatio, if_pos (Nat.zero_mul _), magnitude, hzero]
    simp
  · obtain ⟨x, hfinite, hsign, hx⟩ := exists_magnitude hk hlt hb
    have hpos : 0 < x.significand := by
      refine significand_pos_of_magnitude ?_
      rw [hx]
      positivity
    have hself : (Interval.of x).Contains ((k * 2 ^ b : Nat) / (1 : Nat)) := by
      convert contains_magnitude hpos using 1
      rw [hx]
      push_cast
      ring
    have heq : ofNat (k * 2 ^ b) = x := by
      rw [ofNat, ofRatio_of_contains hpos hfinite Nat.one_pos hself, ← hsign, ofMagnitude_pattern]
    rw [heq]
    exact hx

/-- The powers of ten up to `10 ^ 22` are not changed by rounding. -/
theorem magnitude_tenPow (h : k ≤ 22) : (tenPow k).magnitude = 10 ^ k := by
  have hsplit : 10 ^ k = 5 ^ k * 2 ^ k := by rw [← Nat.mul_pow]
  have hfive : 5 ^ k < 2 ^ 53 :=
    Nat.lt_of_le_of_lt (Nat.pow_le_pow_right (by decide) h) (by decide)
  rw [tenPow, hsplit, magnitude_ofNat hfive (show k ≤ 971 by omega)]
  push_cast
  rw [← mul_pow]
  norm_num

theorem significand_tenPow_pos (h : k ≤ 22) : 0 < (tenPow k).significand := by
  refine significand_pos_of_magnitude ?_
  rw [magnitude_tenPow h]
  positivity

end CouplingMap.Binary64
