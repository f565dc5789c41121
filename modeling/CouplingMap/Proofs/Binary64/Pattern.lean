import CouplingMap.Binary64.Basic
import Mathlib.Algebra.Order.Field.Rat
import Mathlib.Algebra.Order.Field.Power

/-!
# The magnitude of a pattern

A pattern without its sign bit counts the magnitudes below it, which is the significand and as many
times `2 ^ 52` as the exponent is above its least value.

* `pattern`: that count. `bits_mod` and `ofMagnitude_pattern` say that it is the pattern.
* `magnitude`: the number that a finite pattern stands for, without its sign.
* `exists_magnitude`: every natural number of at most 53 bits, shifted, is a magnitude.
-/

namespace CouplingMap.Binary64

-- Powers of naturals are those of the core library wherever this is imported.
attribute [local instance (high)] instPowNat

variable {x y : Binary64} {negative : Bool} {k : Nat}

/-! ## Fields -/

theorem exponentField_eq (x : Binary64) : x.exponentField = x.bits.toNat / 2 ^ 52 % 2 ^ 11 := rfl

theorem fraction_eq (x : Binary64) : x.fraction = x.bits.toNat % 2 ^ 52 := rfl

theorem significand_eq (x : Binary64) :
    x.significand = if x.exponentField = 0 then x.fraction else 2 ^ 52 + x.fraction := rfl

theorem exponent_eq (x : Binary64) :
    x.exponent = if x.exponentField = 0 then -1074 else (x.exponentField : Int) - 1075 := rfl

theorem isFinite_iff : x.isFinite = true ↔ x.exponentField ≠ 2047 := decide_eq_true_iff

theorem isNegative_iff : x.isNegative = true ↔ 2 ^ 63 ≤ x.bits.toNat := decide_eq_true_iff

theorem significand_lt (x : Binary64) : x.significand < 2 ^ 53 := by
  have := fraction_eq x
  rw [significand_eq]
  split <;> omega

theorem exponent_ge (x : Binary64) : -1074 ≤ x.exponent := by
  rw [exponent_eq]
  split <;> omega

theorem exponent_le (x : Binary64) : x.exponent ≤ 972 := by
  have hfield := exponentField_eq x
  rw [exponent_eq]
  split <;> omega

theorem exponent_le_of_isFinite (h : x.isFinite = true) : x.exponent ≤ 971 := by
  have hfield := exponentField_eq x
  rw [isFinite_iff] at h
  rw [exponent_eq]
  split <;> omega

/-- Only at the bottom of the range are there fewer than 53 bits. -/
theorem le_significand (h : -1074 < x.exponent) : 2 ^ 52 ≤ x.significand := by
  rw [exponent_eq] at h
  rw [significand_eq]
  split at h
  · contradiction
  · rename_i hfield
    rw [if_neg hfield]
    exact Nat.le_add_right _ _

/-- The number of magnitudes below a finite one. -/
def pattern (x : Binary64) : Nat := (x.exponent + 1074).toNat * 2 ^ 52 + x.significand

theorem bits_mod (x : Binary64) : x.bits.toNat % 2 ^ 63 = x.pattern := by
  have hfield := exponentField_eq x
  have hfraction := fraction_eq x
  rw [pattern, significand_eq, exponent_eq]
  split <;> omega

theorem isZero_iff : x.isZero = true ↔ x.significand = 0 := by
  have hzero : x.isZero = true ↔ x.bits.toNat % 2 ^ 63 = 0 := decide_eq_true_iff
  have hfield := exponentField_eq x
  have hfraction := fraction_eq x
  rw [hzero, significand_eq]
  split <;> omega

theorem pattern_lt_two_pow (x : Binary64) : x.pattern < 2 ^ 63 :=
  bits_mod x ▸ Nat.mod_lt _ (by decide)

theorem pattern_lt (h : x.isFinite = true) : x.pattern < infinityMagnitude := by
  have hfield := exponentField_eq x
  have hinfinity : infinityMagnitude = 2047 * 2 ^ 52 := rfl
  rw [isFinite_iff] at h
  rw [← bits_mod]
  omega

theorem toNat_ofMagnitude (negative : Bool) (h : k < 2 ^ 63) :
    (ofMagnitude negative k).bits.toNat = (if negative then 2 ^ 63 else 0) + k := by
  have hofNat (m : Nat) : (UInt64.ofNat m).toNat = m % 2 ^ 64 := UInt64.toNat_ofNat'
  cases negative with
  | false =>
    refine (hofNat k).trans ?_
    simp only [Bool.false_eq_true, if_false]
    omega
  | true =>
    refine (hofNat (2 ^ 63 + k)).trans ?_
    simp only [if_true]
    omega

/-- A number is its pattern with its sign. -/
theorem ofMagnitude_pattern (x : Binary64) : ofMagnitude x.isNegative x.pattern = x := by
  have hlt : x.bits.toNat < 2 ^ 64 := x.bits.toNat_lt
  have hmod := bits_mod x
  have hbits := toNat_ofMagnitude x.isNegative x.pattern_lt_two_pow
  refine congrArg mk (UInt64.toNat_inj.1 (hbits.trans ?_))
  cases hs : x.isNegative with
  | false =>
    rw [Bool.eq_false_iff, Ne, isNegative_iff] at hs
    simp only [Bool.false_eq_true, if_false]
    omega
  | true =>
    rw [isNegative_iff] at hs
    simp only [if_true]
    omega

theorem isNegative_ofMagnitude (h : k < 2 ^ 63) :
    (ofMagnitude negative k).isNegative = negative := by
  have hbits := toNat_ofMagnitude negative h
  rw [Bool.eq_iff_iff, isNegative_iff, hbits]
  cases negative
  · simpa using h
  · simp

theorem pattern_ofMagnitude (h : k < 2 ^ 63) : (ofMagnitude negative k).pattern = k := by
  rw [← bits_mod, toNat_ofMagnitude negative h]
  split <;> omega

theorem isFinite_ofMagnitude (negative : Bool) (h : k < infinityMagnitude) :
    (ofMagnitude negative k).isFinite = true := by
  have hinfinity : infinityMagnitude = 2047 * 2 ^ 52 := rfl
  have hbits := toNat_ofMagnitude (k := k) negative (by omega)
  have hfield := exponentField_eq (ofMagnitude negative k)
  rw [isFinite_iff]
  split at hbits <;> omega

/-- The sign is changed by changing its bit. -/
theorem neg_ofMagnitude (h : k < 2 ^ 63) :
    (ofMagnitude false k).neg = ofMagnitude true k := by
  have hbits := toNat_ofMagnitude false h
  have hbits' := toNat_ofMagnitude true h
  refine congrArg mk (UInt64.toNat_inj.1 (Eq.trans ?_ hbits'.symm))
  have hxor : k ^^^ 2 ^ 63 = 2 ^ 63 + k := by
    refine Nat.eq_of_testBit_eq fun j => ?_
    rw [Nat.testBit_xor, Nat.testBit_two_pow]
    rcases Nat.lt_trichotomy j 63 with hj | rfl | hj
    · rw [Nat.testBit_two_pow_add_gt hj, decide_eq_false (Nat.ne_of_gt hj), Bool.xor_false]
    · rw [Nat.testBit_two_pow_add_eq, Nat.testBit_lt_two_pow h]
      rfl
    · have hsum : 2 ^ 63 + k < 2 ^ j :=
        Nat.lt_of_lt_of_le (by omega) (Nat.pow_le_pow_right (by decide) hj)
      rw [Nat.testBit_lt_two_pow hsum, Nat.testBit_lt_two_pow (by omega),
        decide_eq_false (Nat.ne_of_lt hj), Bool.xor_false]
  rw [UInt64.toNat_xor, hbits]
  simpa using hxor

/-- The fields of a magnitude of 53 bits. -/
theorem fields_ofMagnitude (negative : Bool) {m e : Nat} (hm : 2 ^ 52 ≤ m) (hlt : m < 2 ^ 53)
    (he : e ≤ 2045) :
    (ofMagnitude negative (e * 2 ^ 52 + m)).significand = m ∧
      (ofMagnitude negative (e * 2 ^ 52 + m)).exponent = e - 1074 ∧
      (ofMagnitude negative (e * 2 ^ 52 + m)).isFinite = true := by
  have hbits := bits_mod (ofMagnitude negative (e * 2 ^ 52 + m))
  rw [pattern_ofMagnitude (by omega)] at hbits
  generalize ofMagnitude negative (e * 2 ^ 52 + m) = x at *
  have hfield := exponentField_eq x
  have hfraction := fraction_eq x
  rw [significand_eq, exponent_eq, isFinite_iff]
  have hpositive : x.exponentField ≠ 0 := by omega
  rw [if_neg hpositive, if_neg hpositive]
  omega

/-! ## The number -/

/-- The number that a finite pattern stands for, without its sign. -/
def magnitude (x : Binary64) : ℚ := x.significand * 2 ^ x.exponent

theorem magnitude_nonneg (x : Binary64) : 0 ≤ x.magnitude :=
  mul_nonneg (Nat.cast_nonneg _) (zpow_nonneg (by norm_num) _)

theorem significand_pos_of_magnitude (h : 0 < x.magnitude) : 0 < x.significand := by
  refine Nat.pos_of_ne_zero fun hzero => ?_
  rw [magnitude, hzero, Nat.cast_zero, zero_mul] at h
  exact lt_irrefl _ h

/-- Every number of at most 53 bits, with some zeros after them, is the magnitude of a double. -/
theorem exists_magnitude {b : Nat} (hk : 0 < k) (hlt : k < 2 ^ 53) (hb : b ≤ 971) :
    ∃ x : Binary64, x.isFinite = true ∧ x.isNegative = false ∧ x.magnitude = k * 2 ^ b := by
  have hlog : k.log2 ≤ 52 := Nat.le_of_lt_succ ((Nat.log2_lt hk.ne').2 hlt)
  have hlow := Nat.mul_le_mul_right (2 ^ (52 - k.log2)) (Nat.log2_self_le hk.ne')
  have hhigh := Nat.mul_lt_mul_of_pos_right (Nat.lt_log2_self (n := k))
    (Nat.pow_pos (n := 52 - k.log2) (show 0 < 2 by decide))
  rw [← Nat.pow_add, show k.log2 + (52 - k.log2) = 52 by omega] at hlow
  rw [← Nat.pow_add, show k.log2 + 1 + (52 - k.log2) = 53 by omega] at hhigh
  obtain ⟨hs, he, hfinite⟩ := fields_ofMagnitude (e := b + 1022 + k.log2) false hlow
    hhigh (by omega)
  refine ⟨_, hfinite, isNegative_ofMagnitude (by omega), ?_⟩
  rw [magnitude, hs, he]
  push_cast
  rw [mul_assoc, ← zpow_natCast, ← zpow_add₀ (by norm_num), ← zpow_natCast]
  congr 2
  omega

end CouplingMap.Binary64
