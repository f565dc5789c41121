import CouplingMap.Proofs.Binary64.Rounding
import Mathlib.Tactic.NormNum.Pow

/-!
# How far rounding goes

* `Rounding`, `exists_rounding`: what a quotient is rounded to, within half a unit of its last bit.
* `nearestMagnitude_le`, `le_nearestMagnitude`: rounding does not jump over a double.
* `ofRatio_error`: the error of one rounding, which is relative down to the least normal number and
  absolute below it.
* `Within`: relative errors, and how those of products and quotients add up.
* `Near`: doubles that are a few steps apart. `exists_ofRatio_of_within` says that a quotient that is
  close to the interval of a double is rounded to the double or to one of the three on either side.
-/

namespace CouplingMap.Binary64

open Decimal

-- Powers of naturals are those of the core library wherever this is imported.
attribute [local instance (high)] instPowNat

variable {x : Binary64} {num den k m : Nat} {e : Int} {r t v w δ ε : ℚ} {negative : Bool}

/-! ## One rounding -/

theorem le_of_le_add_half {a b : Nat} (h : (a : ℚ) ≤ b + 1 / 2) : a ≤ b := by
  have hlt : (a : ℚ) < (b + 1 : Nat) := by
    push_cast
    linarith
  exact Nat.le_of_lt_succ (Nat.cast_lt.1 hlt)

/-- A quotient is rounded to within half of an integer. -/
theorem roundDiv_bounds (num : Nat) (hd : 0 < den) :
    (num : ℚ) / den ≤ roundDiv num den + 1 / 2 ∧ (roundDiv num den : ℚ) ≤ num / den + 1 / 2 := by
  obtain ⟨hlow, hhigh⟩ : 2 * num ≤ (2 * roundDiv num den + 1) * den ∧ _ := roundDiv_near hd
  have hpos : (0 : ℚ) < den := Nat.cast_pos.2 hd
  have hnum : (num : ℚ) = num / den * den := by rw [div_mul_cancel₀ _ hpos.ne']
  rw [← Nat.cast_le (α := ℚ)] at hlow hhigh
  push_cast at hlow hhigh
  rw [hnum] at hlow hhigh
  constructor <;> nlinarith

/-- A quotient is rounded to a significand with some exponent. -/
structure Rounding (num den : Nat) (e : Int) (m : Nat) : Prop where
  bottom : -1074 ≤ e
  narrow : e = -1074 ∨ 2 ^ 52 * 2 ^ e ≤ (num : ℚ) / den
  wide : (num : ℚ) / den < 2 ^ 53 * 2 ^ e
  low : (num : ℚ) / den ≤ (m + 1 / 2) * 2 ^ e
  high : (m - 1 / 2) * 2 ^ e ≤ (num : ℚ) / den
  nearest : nearestMagnitude num den = min infinityMagnitude ((e + 1074).toNat * 2 ^ 52 + m)

theorem exists_rounding (hn : 0 < num) (hd : 0 < den) : ∃ e m, Rounding num den e m := by
  obtain ⟨hbottom, hwide, hnarrow⟩ := lastBit_spec hn hd
  generalize he : lastBit num den = e at *
  obtain ⟨hlow, hhigh⟩ := roundDiv_bounds (scale e num den).1 (scale_pos e num hd)
  have hunit : (0 : ℚ) < 2 ^ e := by positivity
  rw [scale_div] at hlow hhigh
  refine ⟨e, _, hbottom, hnarrow, hwide, (div_le_iff₀ hunit).1 hlow, ?_, ?_⟩
  · exact (le_div_iff₀ hunit).1 (sub_le_iff_le_add.2 hhigh)
  · rw [← he]
    rfl

namespace Rounding

/-- The significand has 53 bits, or it is carried to the next power of two. -/
theorem le_two_pow (h : Rounding num den e m) : m ≤ 2 ^ 53 := by
  have hunit : (0 : ℚ) < 2 ^ e := by positivity
  refine le_of_le_add_half (sub_le_iff_le_add.1 ?_)
  push_cast
  exact (lt_of_mul_lt_mul_right (h.high.trans_lt h.wide) hunit.le).le

/-- The significand has no fewer than 53 bits, unless it is at the bottom of the range. -/
theorem full (h : Rounding num den e m) : e = -1074 ∨ 2 ^ 52 ≤ m := by
  have hunit : (0 : ℚ) < 2 ^ e := by positivity
  refine h.narrow.imp_right fun hnarrow => le_of_le_add_half ?_
  push_cast
  exact le_of_mul_le_mul_right (hnarrow.trans h.low) hunit

end Rounding

/-! ## Rounding keeps the order -/

/-- Rounding does not jump over a double that is not less. The double may be given with a
significand of 54 bits. -/
theorem nearestMagnitude_le (hn : 0 < num) (hd : 0 < den) (he : -1074 ≤ e)
    (hfull : e = -1074 ∨ 2 ^ 52 ≤ m) (hm : m < 2 ^ 54) (h : (num : ℚ) / den ≤ m * 2 ^ e) :
    nearestMagnitude num den ≤ (e + 1074).toNat * 2 ^ 52 + m := by
  obtain ⟨e', m', hround⟩ := exists_rounding hn hd
  refine hround.nearest.trans_le ((min_le_right _ _).trans ?_)
  have hunit : (0 : ℚ) < 2 ^ e := by positivity
  have hbottom := hround.bottom
  have hhigh := hround.high.trans h
  rcases lt_trichotomy e' e with hlt | rfl | hlt
  · have hcarry := hround.le_two_pow
    have := hfull.resolve_left (by omega)
    omega
  · refine Nat.add_le_add_left (le_of_le_add_half (sub_le_iff_le_add.1 ?_)) _
    exact le_of_mul_le_mul_right hhigh hunit
  · -- The last bit is one higher, and half of the significand is rounded.
    have hnarrow := (hround.narrow.resolve_left (by omega)).trans h
    have hsplit (k : Nat) : (2 : ℚ) ^ (e + k) = 2 ^ k * 2 ^ e := by
      rw [zpow_add₀ (by norm_num), zpow_natCast, mul_comm]
    obtain rfl : e' = e + (1 : Nat) := by
      by_contra hne
      have hm : (m : ℚ) < 2 ^ 54 := mod_cast hm
      have hpow : (2 : ℚ) ^ (e + (2 : Nat)) ≤ 2 ^ e' :=
        zpow_le_zpow_right₀ (by norm_num) (by omega)
      rw [hsplit] at hpow
      nlinarith
    rw [hsplit] at hnarrow hhigh
    have hleast : ((2 ^ 53 : Nat) : ℚ) ≤ m := by
      refine le_of_mul_le_mul_right ?_ hunit
      push_cast
      linarith
    have hhalf : ((2 * m' : Nat) : ℚ) ≤ (m + 1 : Nat) := by
      refine le_of_mul_le_mul_right ?_ hunit
      push_cast
      linarith
    rw [Nat.cast_le] at hleast hhalf
    omega

/-- Rounding does not jump over a double that is not greater. -/
theorem le_nearestMagnitude (hn : 0 < num) (hd : 0 < den) (he : -1074 ≤ e)
    (hfull : e = -1074 ∨ 2 ^ 52 ≤ m) (hm : m ≤ 2 ^ 53) (h : m * 2 ^ e ≤ (num : ℚ) / den) :
    min infinityMagnitude ((e + 1074).toNat * 2 ^ 52 + m) ≤ nearestMagnitude num den := by
  obtain ⟨e', m', hround⟩ := exists_rounding hn hd
  refine (min_le_min_left _ ?_).trans_eq hround.nearest.symm
  have hunit : (0 : ℚ) < 2 ^ e' := by positivity
  have hbottom := hround.bottom
  rcases lt_trichotomy e' e with hlt | rfl | hlt
  · exfalso
    have hwide := hround.wide
    have hfull : (2 ^ 52 : ℚ) ≤ m := mod_cast hfull.resolve_left (by omega)
    have hpow : (2 : ℚ) ^ (e' + 1) ≤ 2 ^ e := zpow_le_zpow_right₀ (by norm_num) (by omega)
    rw [zpow_add_one₀ (by norm_num)] at hpow
    nlinarith
  · refine Nat.add_le_add_left (le_of_le_add_half ?_) _
    exact le_of_mul_le_mul_right (h.trans hround.low) hunit
  · have := hround.full.resolve_left (by omega)
    omega

/-! ## The error of one rounding -/

/-- A double that is given by its significand and its exponent. -/
theorem magnitude_ofMagnitude {E : Nat} (hfull : E = 0 ∨ 2 ^ 52 ≤ m) (hm : m ≤ 2 ^ 53)
    (hfinite : E * 2 ^ 52 + m < infinityMagnitude) :
    (ofMagnitude negative (E * 2 ^ 52 + m)).magnitude = m * 2 ^ ((E : Int) - 1074) := by
  have hinfinity : infinityMagnitude = 2047 * 2 ^ 52 := rfl
  rcases hm.eq_or_lt with rfl | hm
  · -- The significand is carried to the next power of two.
    have hcarry : E * 2 ^ 52 + 2 ^ 53 = (E + 1) * 2 ^ 52 + 2 ^ 52 := by omega
    obtain ⟨hs, he, -⟩ := fields_ofMagnitude (m := 2 ^ 52) (e := E + 1) negative (by decide)
      (by decide) (by omega)
    rw [hcarry, magnitude, hs, he]
    push_cast
    rw [add_sub_right_comm, zpow_add_one₀ (by norm_num)]
    ring
  · rcases Nat.lt_or_ge m (2 ^ 52) with hlt | hge
    · obtain rfl := hfull.resolve_right (Nat.not_le.2 hlt)
      have hbits := bits_mod (ofMagnitude negative m)
      rw [pattern_ofMagnitude (by omega)] at hbits
      rw [Nat.zero_mul, Nat.zero_add, magnitude]
      generalize ofMagnitude negative m = x at *
      have hfield : x.exponentField = 0 := by
        have := exponentField_eq x
        omega
      have hfraction : x.fraction = m := by
        have := fraction_eq x
        omega
      rw [significand_eq, exponent_eq, if_pos hfield, if_pos hfield, hfraction]
      rfl
    · obtain ⟨hs, he, -⟩ := fields_ofMagnitude (m := m) (e := E) negative hge hm (by omega)
      rw [magnitude, hs, he]

/-- Up to the greatest finite number a quotient is rounded to a finite number. -/
theorem nearestMagnitude_lt (hn : 0 < num) (hd : 0 < den)
    (hhigh : (num : ℚ) / den ≤ (2 ^ 53 - 1 : Nat) * 2 ^ (971 : Int)) :
    nearestMagnitude num den < infinityMagnitude :=
  (nearestMagnitude_le (e := 971) (m := 2 ^ 53 - 1) hn hd (by decide) (by decide) (by decide)
    hhigh).trans_lt (by decide)

theorem isFinite_ofRatio (negative : Bool) (hd : 0 < den)
    (hhigh : (num : ℚ) / den ≤ (2 ^ 53 - 1 : Nat) * 2 ^ (971 : Int)) :
    (ofRatio negative num den).isFinite = true := by
  unfold ofRatio
  split
  · exact isFinite_ofMagnitude negative (by decide)
  · rename_i hn
    exact isFinite_ofMagnitude negative (nearestMagnitude_lt (Nat.pos_of_ne_zero hn) hd hhigh)

/-- Up to the greatest finite number a quotient is rounded to within half a unit of its last bit.
This is a relative error except at the bottom of the range. -/
theorem ofRatio_error (hn : 0 < num) (hd : 0 < den)
    (hhigh : (num : ℚ) / den ≤ (2 ^ 53 - 1 : Nat) * 2 ^ (971 : Int)) :
    |(ofRatio negative num den).magnitude - num / den| ≤
      max (1 / 2 ^ 53 * ((num : ℚ) / den)) (2 ^ (-1075 : Int)) := by
  obtain ⟨e, m, hround⟩ := exists_rounding hn hd
  have hnearest := hround.nearest
  have hbottom := hround.bottom
  have hinfinity : infinityMagnitude = 2047 * 2 ^ 52 := rfl
  have hfinite := nearestMagnitude_lt hn hd hhigh
  have hpattern : nearestMagnitude num den = (e + 1074).toNat * 2 ^ 52 + m := by omega
  have hexponent : (((e + 1074).toNat : Nat) : Int) - 1074 = e := by omega
  have hfull : (e + 1074).toNat = 0 ∨ 2 ^ 52 ≤ m := hround.full.imp_left fun h => by omega
  rw [hpattern] at hfinite
  rw [ofRatio, if_neg hn.ne', hpattern, magnitude_ofMagnitude hfull hround.le_two_pow hfinite,
    hexponent]
  have hhalf : |(m : ℚ) * 2 ^ e - num / den| ≤ 2 ^ e / 2 :=
    abs_le.2 ⟨by linarith [hround.low], by linarith [hround.high]⟩
  refine hhalf.trans ?_
  rcases hround.narrow with rfl | hnarrow
  · refine le_max_of_le_right (le_of_eq ?_)
    rw [div_eq_mul_inv, ← zpow_sub_one₀ (by norm_num)]
    rfl
  · refine le_max_of_le_left ?_
    linarith

/-! ## Relative errors -/

/-- A number is another one up to a relative error. -/
def Within (δ r t : ℚ) : Prop := |r - t| ≤ δ * t

namespace Within

theorem mono (h : Within δ r t) (hδ : δ ≤ ε) (ht : 0 ≤ t) : Within ε r t :=
  le_trans h (mul_le_mul_of_nonneg_right hδ ht)

theorem refl (t : ℚ) : Within 0 t t := by
  rw [Within, sub_self, abs_zero, zero_mul]

theorem trans (h : Within δ r t) (h' : Within ε t v) (hδ : 0 ≤ δ) :
    Within (δ + ε + δ * ε) r v := by
  obtain ⟨hlow, hhigh⟩ := abs_le.1 h
  obtain ⟨hlow', hhigh'⟩ := abs_le.1 h'
  refine abs_le.2 ⟨?_, ?_⟩ <;> nlinarith

theorem pos (h : Within δ r t) (hδ : δ < 1) (ht : 0 < t) : 0 < r := by
  have hlow := (abs_le.1 h).1
  nlinarith

theorem mul_right (h : Within δ r t) (hw : 0 ≤ w) : Within δ (r * w) (t * w) := by
  rw [Within, ← sub_mul, abs_mul, abs_of_nonneg hw, ← mul_assoc]
  exact mul_le_mul_of_nonneg_right h hw

/-- The errors of the factors of a product add up. -/
theorem mul (h : Within δ r t) (h' : Within ε v w) (hδ : 0 ≤ δ) (ht : 0 ≤ t) (hv : 0 ≤ v) :
    Within (δ + ε + δ * ε) (r * v) (t * w) := by
  refine (h.mul_right hv).trans ?_ hδ
  rw [mul_comm t v, mul_comm t w]
  exact h'.mul_right ht

theorem inv (h : Within ε v w) (hε : ε < 1) (hw : 0 < w) : Within (ε / (1 - ε)) v⁻¹ w⁻¹ := by
  have hv : (1 - ε) * w ≤ v := by linarith [(abs_le.1 h).1]
  have hgap : 0 < 1 - ε := sub_pos.2 hε
  have hpos : 0 < v := h.pos hε hw
  have hratio : |w - v| / v ≤ ε / (1 - ε) := by
    rw [div_le_div_iff₀ hpos hgap, abs_sub_comm]
    have hε : 0 ≤ ε := nonneg_of_mul_nonneg_left ((abs_nonneg _).trans h) hw
    calc |v - w| * (1 - ε) ≤ ε * w * (1 - ε) := mul_le_mul_of_nonneg_right h hgap.le
      _ = ε * ((1 - ε) * w) := by ring
      _ ≤ ε * v := mul_le_mul_of_nonneg_left hv hε
  rw [Within, inv_sub_inv hpos.ne' hw.ne', abs_div, abs_mul, abs_of_pos hpos, abs_of_pos hw,
    ← div_div, div_eq_mul_inv]
  exact mul_le_mul_of_nonneg_right hratio (inv_nonneg.2 hw.le)

/-- The errors of a quotient. -/
theorem div (h : Within δ r t) (h' : Within ε v w) (hδ : 0 ≤ δ) (hε : ε < 1) (ht : 0 ≤ t)
    (hw : 0 < w) : Within (δ + ε / (1 - ε) + δ * (ε / (1 - ε))) (r / v) (t / w) := by
  rw [div_eq_mul_inv, div_eq_mul_inv]
  exact h.mul (h'.inv hε hw) hδ ht (inv_nonneg.2 (h'.pos hε hw).le)

end Within

/-- One rounding of a number that is not far below the least normal number. -/
theorem ofRatio_within {c : ℚ} (negative : Bool) (hd : 0 < den) (hc : 1 ≤ c)
    (hlow : 2 ^ (-1022 : Int) ≤ c * ((num : ℚ) / den))
    (hhigh : (num : ℚ) / den ≤ (2 ^ 53 - 1 : Nat) * 2 ^ (971 : Int)) :
    Within (c / 2 ^ 53) (ofRatio negative num den).magnitude (num / den) := by
  have hn : 0 < num := by
    refine Nat.pos_of_ne_zero fun hzero => ?_
    rw [hzero, Nat.cast_zero, zero_div, mul_zero] at hlow
    exact hlow.not_gt (by positivity)
  have hsplit : (2 : ℚ) ^ (-1075 : Int) = 1 / 2 ^ 53 * 2 ^ (-1022 : Int) := by
    rw [show (-1075 : Int) = -53 + -1022 by decide, zpow_add₀ (by norm_num)]
    norm_num
  have hratio : (0 : ℚ) ≤ num / den := by positivity
  refine (ofRatio_error hn hd hhigh).trans (max_le ?_ ?_)
  · exact mul_le_mul_of_nonneg_right (by linarith) hratio
  · rw [hsplit]
    linarith

/-- The greatest finite number, as a quotient and as a natural number. -/
theorem cast_le_greatest (h : k ≤ (2 ^ 53 - 1) * 2 ^ 971) :
    (k : ℚ) ≤ (2 ^ 53 - 1 : Nat) * 2 ^ (971 : Int) := by
  exact_mod_cast h

/-- A natural number is rounded once. -/
theorem ofNat_within (hk : 0 < k) (hhigh : k ≤ (2 ^ 53 - 1) * 2 ^ 971) :
    Within (1 / 2 ^ 53) (ofNat k).magnitude k := by
  have hone : ((k : Nat) : ℚ) / (1 : Nat) = k := by rw [Nat.cast_one, div_one]
  rw [← hone]
  refine ofRatio_within false Nat.one_pos le_rfl ?_ ?_
  · rw [hone, one_mul]
    exact (zpow_le_one_of_nonpos₀ (by norm_num) (by decide)).trans (Nat.one_le_cast.2 hk)
  · rw [hone]
    exact cast_le_greatest hhigh

theorem ten_pow_le : ∀ k < 309, 10 ^ k ≤ (2 ^ 53 - 1) * 2 ^ 971 := by
  decide +kernel

/-- A power of ten is rounded once. -/
theorem tenPow_within (h : k ≤ 308) : Within (1 / 2 ^ 53) (tenPow k).magnitude (10 ^ k) := by
  have hpow := ofNat_within (k := 10 ^ k) (Nat.pow_pos (by decide))
    (ten_pow_le k (Nat.lt_succ_of_le h))
  rwa [Nat.cast_pow, Nat.cast_ofNat] at hpow

/-- The largest power of ten that is used in one step is nearly a double. -/
theorem tenPow_largest_within : Within (1 / 10 / 2 ^ 53) (tenPow 308).magnitude (10 ^ 308) := by
  have hbits : tenPow 308 = ⟨0x7FE1CCF385EBC8A0⟩ := by decide +kernel
  have hfields : (tenPow 308).significand = 0x11CCF385EBC8A0 ∧ (tenPow 308).exponent = 971 := by
    rw [hbits]
    decide
  have hlow : 10 ^ 308 ≤ 0x11CCF385EBC8A0 * 2 ^ 971 := by decide +kernel
  have hhigh : 10 * 2 ^ 53 * (0x11CCF385EBC8A0 * 2 ^ 971) ≤ (10 * 2 ^ 53 + 1) * 10 ^ 308 := by
    decide +kernel
  have hmagnitude : (tenPow 308).magnitude = (0x11CCF385EBC8A0 * 2 ^ 971 : Nat) := by
    rw [magnitude, hfields.1, hfields.2, Nat.cast_mul, Nat.cast_pow]
    rfl
  have hpower : (10 : ℚ) ^ 308 = (10 ^ 308 : Nat) := by
    rw [Nat.cast_pow]
    rfl
  rw [Within, hmagnitude, hpower]
  generalize 10 ^ 308 = t at *
  generalize 0x11CCF385EBC8A0 * 2 ^ 971 = r at *
  rw [← Nat.cast_le (α := ℚ)] at hlow hhigh
  push_cast at hlow hhigh
  rw [abs_of_nonneg (sub_nonneg.2 hlow)]
  linarith

/-! ## Steps between doubles -/

/-- Magnitudes with at most `k` steps from one to the other. -/
structure Steps (k p q : Nat) : Prop where
  up : q ≤ p + k
  down : p ≤ q + k

/-- Doubles of one sign with at most `k` steps from one to the other. -/
structure Near (k : Nat) (x y : Binary64) : Prop where
  sign : y.isNegative = x.isNegative
  steps : Steps k x.pattern y.pattern

/-- The relative error that two roundings and a little more make up for. -/
def slack : ℚ := 49 / 20 / 2 ^ 53

/-- The bounds of a number that is close to the interval of a double, in units of its last bit. -/
theorem bounds_of_within (hx : 0 < x.significand) (hv : (Interval.of x).Contains v)
    (h : Within slack t v) :
    (x.significand - reachBelow x - 49 / 20 * ((x.significand + 1 / 2) / 2 ^ 53)) * unit x ≤ t ∧
      t ≤ (x.significand + 1 / 2 + 49 / 20 * ((x.significand + 1 / 2) / 2 ^ 53)) * unit x := by
  obtain ⟨hlow, hhigh, -⟩ := ends_of_contains hx hv
  obtain ⟨hbelow, habove⟩ := abs_le.1 h
  have herror : slack * v ≤ 49 / 20 * ((x.significand + 1 / 2) / 2 ^ 53) * unit x := by
    unfold slack
    linarith
  constructor <;> linarith

theorem error_le (x : Binary64) : ((x.significand : ℚ) + 1 / 2) / 2 ^ 53 ≤ 1 := by
  have hm : (x.significand : ℚ) + 1 ≤ 2 ^ 53 := mod_cast x.significand_lt
  rw [div_le_one (by norm_num)]
  linarith

/-- A number that is close to the interval of a double is not more than three doubles below it. -/
theorem le_nearestMagnitude_of_within (hx : 0 < x.significand) (hfinite : x.isFinite = true)
    (hn : 0 < num) (hd : 0 < den) (hv : (Interval.of x).Contains v)
    (h : Within slack (num / den) v) : x.pattern ≤ nearestMagnitude num den + 3 := by
  have hlow := (bounds_of_within hx hv h).1
  have herror := error_le x
  have hunit := unit_pos x
  have hreach := reachBelow_le x
  have hlt := x.significand_lt
  have hbottom := x.exponent_ge
  have hpattern := pattern_lt hfinite
  have heq : x.pattern = (x.exponent + 1074).toNat * 2 ^ 52 + x.significand := rfl
  by_cases hdeep : x.exponent = -1074 ∨ 2 ^ 52 ≤ x.significand - 3
  · have hle := le_nearestMagnitude (m := x.significand - 3) hn hd hbottom hdeep (by omega) ?_
    · omega
    rw [← unit]
    rcases Nat.le_total x.significand 3 with hsmall | hlarge
    · rw [Nat.sub_eq_zero_of_le hsmall, Nat.cast_zero, zero_mul]
      positivity
    · rw [Nat.cast_sub hlarge]
      refine le_trans (mul_le_mul_of_nonneg_right ?_ hunit.le) hlow
      push_cast
      linarith
  · -- Three steps lead below a power of two, where doubles are twice as dense.
    have hleast := x.le_significand (by omega)
    have hle := le_nearestMagnitude (e := x.exponent - 1) (m := 2 ^ 52 + x.significand - 3) hn hd
      (by omega) (by omega) (by omega) ?_
    · omega
    have hhalf : (2 : ℚ) ^ (x.exponent - 1) = 1 / 2 * unit x := by
      rw [zpow_sub_one₀ (by norm_num), unit]
      ring
    rw [hhalf, ← mul_assoc]
    refine le_trans (mul_le_mul_of_nonneg_right ?_ hunit.le) hlow
    rw [Nat.cast_sub (by omega)]
    obtain hm | hm : x.significand = 2 ^ 52 ∨ 2 ^ 52 < x.significand := by omega
    · have hreach : reachBelow x = 1 / 4 := if_pos ⟨hm, by omega⟩
      rw [hm, hreach]
      norm_num
    · have hlow : (2 ^ 52 + 1 : ℚ) ≤ x.significand := mod_cast hm
      have hhigh : (x.significand : ℚ) ≤ 2 ^ 52 + 2 := mod_cast (by omega)
      push_cast
      linarith

/-- A number that is close to the interval of a double is not more than three doubles above it. -/
theorem nearestMagnitude_le_of_within (hx : 0 < x.significand) (hn : 0 < num) (hd : 0 < den)
    (hv : (Interval.of x).Contains v) (h : Within slack (num / den) v) :
    nearestMagnitude num den ≤ x.pattern + 3 := by
  have hhigh := (bounds_of_within hx hv h).2
  have herror := error_le x
  have hlt := x.significand_lt
  have hbottom := x.exponent_ge
  have hfull : x.exponent = -1074 ∨ 2 ^ 52 ≤ x.significand + 3 := by
    rcases hbottom.eq_or_lt with he | he
    · exact Or.inl he.symm
    · exact Or.inr ((x.le_significand he).trans (Nat.le_add_right _ 3))
  rw [pattern, Nat.add_assoc]
  refine nearestMagnitude_le hn hd hbottom hfull (by omega) (hhigh.trans ?_)
  rw [unit]
  refine mul_le_mul_of_nonneg_right ?_ (unit_pos x).le
  push_cast
  linarith

/-- A number that is close to the interval of a double is rounded to the double or to one of the
three on either side of it. -/
theorem exists_ofRatio_of_within (negative : Bool) (hx : 0 < x.significand)
    (hfinite : x.isFinite = true) (hd : 0 < den) (hv : (Interval.of x).Contains v)
    (h : Within slack (num / den) v) :
    ∃ p, ofRatio negative num den = ofMagnitude negative p ∧ Steps 3 x.pattern p := by
  have hn : 0 < num := by
    have hratio := h.pos (by norm_num [slack]) (pos_of_contains hx hv)
    refine Nat.pos_of_ne_zero fun hzero => ?_
    rw [hzero, Nat.cast_zero, zero_div] at hratio
    exact lt_irrefl _ hratio
  exact ⟨nearestMagnitude num den, if_neg hn.ne', nearestMagnitude_le_of_within hx hn hd hv h,
    le_nearestMagnitude_of_within hx hfinite hn hd hv h⟩

end CouplingMap.Binary64
