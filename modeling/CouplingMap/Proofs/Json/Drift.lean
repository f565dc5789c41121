import CouplingMap.Proofs.Binary64.Error
import CouplingMap.Proofs.Json.Double

/-!
# How far doubles drift in texts

The reader rounds the digits of a double, the power of ten, and their product or quotient. Far down
it divides twice. These roundings lead at most three doubles away from the one that was written.

* `Numeral.scaleByTen_near`: digits and a power of ten in the interval of a double.
* `Numeral.exists_number_near`: every finite double is read as a finite double that is near to it.
-/

namespace CouplingMap.Json.Numeral

open Decimal Binary64

-- Powers of naturals are those of the core library wherever this is imported.
attribute [local instance (high)] instPowNat

variable {x : Binary64} {s n : Nat}

/-! ## Powers of ten -/

theorem significand_tenPow_pos_of_le (h : n ≤ 308) : 0 < (tenPow n).significand :=
  significand_pos_of_magnitude ((tenPow_within h).pos (by norm_num) (by positivity))

/-- Up to seventeen digits are rounded once. -/
theorem digits_within (hs : 0 < s) (hlt : s < 10 ^ 17) :
    Within (1 / 2 ^ 53) (Binary64.ofNat s).magnitude s :=
  ofNat_within hs (hlt.le.trans (ten_pow_le 17 (by decide)))

/-! ## The first of two divisions -/

/-- The largest power of ten that is used in one step, compared with digits and with the least
normal number. -/
theorem ten_pow_largest : 2 * 10 ^ 17 ≤ (10 : ℚ) ^ 308 ∧
    (2 : ℚ) ^ (-1022 : Int) * 10 ^ 308 ≤ 9 / 4 * (1 - 1 / 2 ^ 53) := by
  have hpowers : 4 * 2 ^ 53 * 10 ^ 308 ≤ 9 * (2 ^ 53 - 1) * 2 ^ 1022 := by decide +kernel
  constructor
  · refine le_trans (by norm_num : (2 * 10 ^ 17 : ℚ) ≤ 10 ^ 18) ?_
    exact pow_le_pow_right₀ (by norm_num) (by decide)
  · have hcast : (10 : ℚ) ^ 308 = (10 ^ 308 : Nat) := by
      rw [Nat.cast_pow]
      rfl
    have hcast' : (2 : ℚ) ^ (-1022 : Int) = ((2 ^ 1022 : Nat) : ℚ)⁻¹ := by
      rw [Nat.cast_pow]
      rfl
    have hpos : 0 < 2 ^ 1022 := by positivity
    rw [hcast, hcast']
    generalize 10 ^ 308 = t at *
    generalize 2 ^ 1022 = r at *
    have hr : (0 : ℚ) < r := Nat.cast_pos.2 hpos
    rw [inv_mul_le_iff₀ hr]
    rw [← Nat.cast_le (α := ℚ)] at hpowers
    push_cast at hpowers
    linarith

/-- The digits over the largest power of ten that is used in one step, rounded to a double. They are
not far below the normal numbers. -/
theorem ofRatio_within_digits {num den : Nat} {δ c : ℚ} (hd : 0 < den)
    (hlt : s < 10 ^ 17) (hδ : δ ≤ 1) (hc : 1 ≤ c) (hcs : 9 / 4 * (1 - 1 / 2 ^ 53) ≤ c * (1 - δ) * s)
    (h : Within δ (num / den) (s / 10 ^ 308)) :
    Within (c / 2 ^ 53) (ofRatio false num den).magnitude (num / den) := by
  obtain ⟨hlarge, hleast⟩ := ten_pow_largest
  obtain ⟨hlow, hhigh⟩ := abs_le.1 h
  have hten : (0 : ℚ) < 10 ^ 308 := by positivity
  have hs : (s : ℚ) ≤ 10 ^ 17 := mod_cast hlt.le
  generalize (10 : ℚ) ^ 308 = T at *
  have hnonneg : 0 ≤ (s : ℚ) / T := by positivity
  have hratio : (s : ℚ) / T ≤ 1 / 2 := by
    rw [div_le_iff₀ hten]
    linarith
  refine ofRatio_within false hd hc ?_ ?_
  · have hscaled : c * (1 - δ) * (s / T) ≤ c * (num / den) := by nlinarith
    refine le_trans ?_ hscaled
    rw [← mul_div_assoc, le_div_iff₀ hten]
    exact hleast.trans hcs
  · have hone : (num : ℚ) / den ≤ 1 := by nlinarith
    have hmax : 1 ≤ (2 ^ 53 - 1) * 2 ^ 971 := Nat.one_le_iff_ne_zero.2 (by positivity)
    exact hone.trans (mod_cast hmax)

/-- The first division has an error of two roundings and a little more. If it leads below the normal
numbers, the digits are a double. -/
theorem first_div_within (hs : 0 < s) (hlt : s < 10 ^ 17) :
    Within (12 / 5 / 2 ^ 53) ((Binary64.ofNat s).div (tenPow 308)).magnitude (s / 10 ^ 308) := by
  obtain ⟨num, den, hd, hvalue, heq⟩ :=
    exists_div_eq (Binary64.ofNat s) (significand_tenPow_pos_of_le (Nat.le_refl 308))
  have hnonneg : (0 : ℚ) ≤ s / 10 ^ 308 := by positivity
  have hquotient {δ : ℚ} (h : Within δ (Binary64.ofNat s).magnitude s) (hδ : 0 ≤ δ) :=
    h.div tenPow_largest_within hδ (by norm_num) (Nat.cast_nonneg s) (by positivity)
  rw [heq, isNegative_ofNat, isNegative_tenPow, bne_self_eq_false]
  rcases Nat.lt_or_ge s (2 ^ 53) with hsmall | hlarge
  · have hexact := magnitude_ofNat (b := 0) hsmall (by decide)
    rw [Nat.pow_zero, Nat.mul_one, pow_zero, mul_one] at hexact
    have hratio := hquotient (hexact ▸ Within.refl _) le_rfl
    rw [← hvalue] at hratio
    have hone : (1 : ℚ) ≤ s := mod_cast hs
    have hrounded := ofRatio_within_digits (c := 9 / 4) hd hlt (by norm_num) (by norm_num)
      (by norm_num; linarith) hratio
    exact (hrounded.trans hratio (by norm_num)).mono (by norm_num) hnonneg
  · have hratio := hquotient (digits_within hs hlt) (by norm_num)
    rw [← hvalue] at hratio
    have hlarge : (2 ^ 53 : ℚ) ≤ s := mod_cast hlarge
    have hrounded := ofRatio_within_digits (c := 1) hd hlt (by norm_num) le_rfl
      (by norm_num; linarith) hratio
    exact (hrounded.trans hratio (by norm_num)).mono (by norm_num) hnonneg

/-! ## Digits and a power of ten -/

/-- No number in the interval of a finite double has a power of ten beyond the largest one. -/
theorem power_le {k : Nat} (hx : 0 < x.significand) (hfinite : x.isFinite = true) (hs : 0 < s)
    (hv : (Interval.of x).Contains (s * 10 ^ k)) : k ≤ largestPower := by
  have hmax : (2 : ℚ) ^ 53 * 2 ^ (971 : Int) ≤ 10 ^ 309 := by
    have hpowers : 2 ^ 53 * 2 ^ 971 ≤ 10 ^ 309 := by decide +kernel
    rw [← Nat.cast_le (α := ℚ), Nat.cast_mul, Nat.cast_pow, Nat.cast_pow, Nat.cast_pow] at hpowers
    exact hpowers
  have hunit : unit x ≤ 2 ^ (971 : Int) :=
    zpow_le_zpow_right₀ (by norm_num) (exponent_le_of_isFinite hfinite)
  have hm : (x.significand : ℚ) + 1 ≤ 2 ^ 53 := mod_cast x.significand_lt
  have hone : (1 : ℚ) ≤ s := mod_cast hs
  by_contra hlt
  have hpower : (10 : ℚ) ^ 309 ≤ 10 ^ k := pow_le_pow_right₀ (by norm_num) (Nat.lt_of_not_le hlt)
  refine lt_irrefl ((10 : ℚ) ^ 309) ?_
  calc (10 : ℚ) ^ 309 ≤ s * 10 ^ k := hpower.trans (le_mul_of_one_le_left (by positivity) hone)
    _ ≤ (x.significand + 1 / 2) * unit x := (ends_of_contains hx hv).2.1
    _ < 2 ^ 53 * unit x := mul_lt_mul_of_pos_right (by linarith) (unit_pos x)
    _ ≤ 2 ^ 53 * 2 ^ (971 : Int) := mul_le_mul_of_nonneg_left hunit (by norm_num)
    _ ≤ 10 ^ 309 := hmax

/-- The power of ten in the shortest decimal of a finite double is not beyond it either. -/
theorem shortest_exponent_le (hx : 0 < x.significand) (hfinite : x.isFinite = true) :
    (shortest x).exponent ≤ largestPower := by
  have hcontains := contains_shortest hx
  generalize (shortest x).exponent = e at *
  cases e with
  | ofNat k => exact Int.ofNat_le.2 (power_le hx hfinite (shortest_pos hx) hcontains)
  | negSucc k => exact (Int.negSucc_lt_zero k).le.trans (by decide)

section Scaled

variable (hx : 0 < x.significand) (hfinite : x.isFinite = true) (hs : 0 < s) (hlt : s < 10 ^ 17)
include hx hfinite hs hlt

/-- A product with a power of ten. -/
theorem mul_near (hn : n ≤ 308) (hv : (Interval.of x).Contains (s * 10 ^ n)) :
    ∃ p, (Binary64.ofNat s).mul (tenPow n) = ofMagnitude false p ∧ Steps 3 x.pattern p := by
  obtain ⟨num, den, hd, hvalue, heq⟩ := exists_mul_eq (Binary64.ofNat s) (tenPow n)
  have hwithin := (digits_within hs hlt).mul (tenPow_within hn) (by norm_num) (Nat.cast_nonneg s)
    (magnitude_nonneg _)
  rw [← hvalue] at hwithin
  rw [heq, isNegative_ofNat, isNegative_tenPow, bne_self_eq_false]
  exact exists_ofRatio_of_within false hx hfinite hd hv
    (hwithin.mono (by norm_num [slack]) (by positivity))

/-- A quotient by a power of ten. -/
theorem div_near (hn : n ≤ 308) (hv : (Interval.of x).Contains (s / 10 ^ n)) :
    ∃ p, (Binary64.ofNat s).div (tenPow n) = ofMagnitude false p ∧ Steps 3 x.pattern p := by
  obtain ⟨num, den, hd, hvalue, heq⟩ :=
    exists_div_eq (Binary64.ofNat s) (significand_tenPow_pos_of_le hn)
  have hwithin := (digits_within hs hlt).div (tenPow_within hn) (by norm_num) (by norm_num)
    (Nat.cast_nonneg s) (by positivity)
  rw [← hvalue] at hwithin
  rw [heq, isNegative_ofNat, isNegative_tenPow, bne_self_eq_false]
  exact exists_ofRatio_of_within false hx hfinite hd hv
    (hwithin.mono (by norm_num [slack]) (by positivity))

/-- A quotient by a power of ten that needs two steps. The second power is a double. -/
theorem div_div_near (hn : n ≤ 22) (hv : (Interval.of x).Contains (s / 10 ^ (308 + n))) :
    ∃ p, ((Binary64.ofNat s).div (tenPow 308)).div (tenPow n) = ofMagnitude false p ∧
      Steps 3 x.pattern p := by
  have hnegative : ((Binary64.ofNat s).div (tenPow 308)).isNegative = false := by
    rw [Binary64.div, isNegative_ofRatio, isNegative_ofNat, isNegative_tenPow, bne_self_eq_false]
  obtain ⟨num, den, hd, hvalue, heq⟩ :=
    exists_div_eq ((Binary64.ofNat s).div (tenPow 308)) (significand_tenPow_pos hn)
  have hwithin := (first_div_within hs hlt).div (Within.refl (10 ^ n)) (by norm_num) (by norm_num)
    (by positivity) (by positivity)
  rw [← magnitude_tenPow hn, ← hvalue, magnitude_tenPow hn] at hwithin
  rw [pow_add, ← div_div] at hv
  rw [heq, hnegative, isNegative_tenPow, bne_self_eq_false]
  exact exists_ofRatio_of_within false hx hfinite hd hv
    (hwithin.mono (by norm_num [slack]) (by positivity))

/-- Quotients by the powers of ten that stand in texts of doubles. -/
theorem shrink_near {k : Nat} (hk : k < 324) (hv : (Interval.of x).Contains (s / 10 ^ (k + 1))) :
    ∃ p, shrink (k / largestPower + 1) (Binary64.ofNat s) (k + 1) = ofMagnitude false p ∧
      Steps 3 x.pattern p := by
  rcases Nat.lt_or_ge k 308 with hsmall | hlarge
  · rw [shrink, if_pos (show k + 1 ≤ largestPower from hsmall)]
    exact div_near hx hfinite hs hlt hsmall hv
  · obtain ⟨n, rfl⟩ := Nat.exists_eq_add_of_le hlarge
    have hfirst : ¬ 308 + (n + 1) ≤ largestPower := by
      unfold largestPower
      omega
    have hsteps : (308 + n) / largestPower = 1 := by
      unfold largestPower
      omega
    have hsecond : n + 1 ≤ largestPower := by
      unfold largestPower
      omega
    have hrest : 308 + (n + 1) - largestPower = n + 1 := Nat.add_sub_cancel_left ..
    have hzero : ¬ (Binary64.ofNat s).isZero = true := by
      rw [isZero_iff]
      exact (significand_pos_of_magnitude
        ((digits_within hs hlt).pos (by norm_num) (Nat.cast_pos.2 hs))).ne'
    rw [Nat.add_assoc] at hv ⊢
    rw [hsteps, shrink, if_neg hfirst, if_neg hzero, hrest, shrink, if_pos hsecond]
    exact div_div_near hx hfinite hs hlt (by omega) hv

/-- Up to seventeen digits and a power of ten in the interval of a double are scaled to the double
or to one of the three on either side of it. -/
theorem scaleByTen_near {k : Int} (htop : x.pattern + 3 < infinityMagnitude) (hk : -324 ≤ k)
    (hv : (Interval.of x).Contains (s * 10 ^ k)) :
    ∃ p, scaleByTen (Binary64.ofNat s) k = some (ofMagnitude false p) ∧ Steps 3 x.pattern p := by
  cases k with
  | ofNat k =>
    have hpower := power_le hx hfinite hs hv
    obtain ⟨p, hp, hsteps⟩ := mul_near hx hfinite hs hlt hpower hv
    have hwithin := isFinite_ofMagnitude false (Nat.lt_of_le_of_lt hsteps.up htop)
    refine ⟨p, ?_, hsteps⟩
    simp only [scaleByTen, hpower, if_true, hp, hwithin]
  | negSucc k =>
    rw [zpow_negSucc, ← div_eq_mul_inv] at hv
    obtain ⟨p, hp, hsteps⟩ := shrink_near hx hfinite hs hlt (by omega) hv
    exact ⟨p, congrArg some hp, hsteps⟩

end Scaled

/-! ## Texts of doubles -/

/-- The three greatest magnitudes are read as one of them. -/
theorem number_greatest : ∀ negative : Bool, ∀ i < 3, ∃ j < 3,
    (ofDouble (ofMagnitude negative (infinityMagnitude - 1 - i))).number =
      .ok (.double (ofMagnitude negative (infinityMagnitude - 1 - j))) := by
  decide +kernel

theorem near_ofMagnitude {p : Nat} (hp : p < infinityMagnitude) (h : Steps 3 x.pattern p) :
    x.Near 3 (ofMagnitude x.isNegative p) := by
  have hlt : p < 2 ^ 63 := hp.trans (by decide)
  refine ⟨isNegative_ofMagnitude hlt, ?_⟩
  rwa [pattern_ofMagnitude hlt]

/-- Every finite double is read as a finite double that is near to it. -/
theorem exists_number_near (hfinite : x.isFinite = true) :
    ∃ y, (ofDouble x).number = .ok (.double y) ∧ y.isFinite = true ∧ x.Near 3 y := by
  have hpattern := pattern_lt hfinite
  by_cases hzero : x.isZero = true
  · exact ⟨x, number_ofDouble_zero hzero, hfinite, rfl, Nat.le_add_right _ 3, Nat.le_add_right _ 3⟩
  rcases Nat.lt_or_ge (x.pattern + 3) infinityMagnitude with hbelow | htop
  · obtain ⟨hs, hlt, hk⟩ := range_ofDouble hzero
    have hpos := significand_pos hzero
    have hvalue := contains_shortest hpos
    rw [← value_ofDouble hzero] at hvalue
    obtain ⟨p, hp, hsteps⟩ := scaleByTen_near hpos hfinite hs hlt hbelow hk hvalue
    have hlt : p < infinityMagnitude := hsteps.up.trans_lt hbelow
    exact ⟨_, number_ofDouble_eq hzero (hlt.trans (by decide)) hp, isFinite_ofMagnitude _ hlt,
      near_ofMagnitude hlt hsteps⟩
  · -- Three steps up from here lead to infinity, but the three numbers are read as finite ones.
    obtain ⟨j, hj, hnumber⟩ :=
      number_greatest x.isNegative (infinityMagnitude - 1 - x.pattern) (by omega)
    have hself : infinityMagnitude - 1 - (infinityMagnitude - 1 - x.pattern) = x.pattern := by
      omega
    have hlt : infinityMagnitude - 1 - j < infinityMagnitude := by omega
    rw [hself, ofMagnitude_pattern] at hnumber
    exact ⟨_, hnumber, isFinite_ofMagnitude _ hlt, near_ofMagnitude hlt ⟨by omega, by omega⟩⟩

end CouplingMap.Json.Numeral
