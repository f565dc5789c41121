import CouplingMap.Decimal.Shortest
import CouplingMap.Proofs.Binary64.Pattern
import Mathlib.Tactic.Linarith
import Mathlib.Tactic.LinearCombination
import Mathlib.Tactic.Positivity
import Mathlib.Tactic.Ring

/-!
# The numbers that round to a double

* `Decimal.Interval.Contains`: the numbers in an interval. `holds_iff` says that the test on
  integers is about them.
* `Decimal.contains_iff`: the interval of a double reaches half way to its neighbours.
* `Decimal.contains_magnitude`: it has the double itself.
-/

namespace CouplingMap.Decimal

-- Powers of naturals are those of the core library wherever this is imported.
attribute [local instance (high)] instPowNat

variable {i : Interval} {r : ℚ} {c : Nat} {s : Int} {x : Binary64}

/-! ## A common scale -/

/-- A power with an integer exponent, made integer. -/
theorem zpow_mul_toNat {a : ℚ} (ha : a ≠ 0) (e : Int) : a ^ e * a ^ (-e).toNat = a ^ e.toNat := by
  rw [← zpow_natCast, ← zpow_natCast, ← zpow_add₀ ha]
  congr 1
  omega

/-- What both numbers are multiplied by. -/
def commonFactor (s e : Int) : ℚ := 2 ^ (-e).toNat * 10 ^ (-s).toNat

theorem commonFactor_pos (s e : Int) : 0 < commonFactor s e := by
  unfold commonFactor
  positivity

theorem toCommon_fst (c : Nat) (s : Int) (b : Nat) (e : Int) :
    ((toCommon c s b e).1 : ℚ) = c * 10 ^ s * commonFactor s e := by
  have h := zpow_mul_toNat (a := 10) (by norm_num) s
  rw [toCommon, commonFactor]
  push_cast
  linear_combination (-(c : ℚ) * 2 ^ (-e).toNat) * h

theorem toCommon_snd (c : Nat) (s : Int) (b : Nat) (e : Int) :
    ((toCommon c s b e).2 : ℚ) = b * 2 ^ e * commonFactor s e := by
  have h := zpow_mul_toNat (a := 2) (by norm_num) e
  rw [toCommon, commonFactor]
  push_cast
  linear_combination (-(b : ℚ) * 10 ^ (-s).toNat) * h

theorem toCommon_le {b : Nat} {e : Int} :
    (toCommon c s b e).1 ≤ (toCommon c s b e).2 ↔ (c : ℚ) * 10 ^ s ≤ b * 2 ^ e := by
  rw [← Nat.cast_le (α := ℚ), toCommon_fst, toCommon_snd,
    mul_le_mul_iff_of_pos_right (commonFactor_pos s e)]

theorem le_toCommon {b : Nat} {e : Int} :
    (toCommon c s b e).2 ≤ (toCommon c s b e).1 ↔ (b : ℚ) * 2 ^ e ≤ c * 10 ^ s := by
  rw [← Nat.cast_le (α := ℚ), toCommon_fst, toCommon_snd,
    mul_le_mul_iff_of_pos_right (commonFactor_pos s e)]

/-! ## Intervals -/

/-- The numbers in an interval. -/
def Interval.Contains (i : Interval) (r : ℚ) : Prop :=
  if i.closed then i.low * 2 ^ i.exponent ≤ r ∧ r ≤ i.high * 2 ^ i.exponent
  else i.low * 2 ^ i.exponent < r ∧ r < i.high * 2 ^ i.exponent

/-- The test on integers is about the numbers in the interval. -/
theorem Interval.holds_iff : i.holds c s = true ↔ i.Contains (c * 10 ^ s) := by
  unfold holds Contains
  cases i.closed with
  | true => simp only [if_true, Bool.and_eq_true, decide_eq_true_eq, toCommon_le, le_toCommon]
  | false =>
    simp only [Bool.false_eq_true, if_false, Bool.and_eq_true, decide_eq_true_eq, ← not_le,
      toCommon_le, le_toCommon]

/-- The unit of the significand of a double. -/
def unit (x : Binary64) : ℚ := 2 ^ x.exponent

theorem unit_pos (x : Binary64) : 0 < unit x := zpow_pos (by norm_num) _

/-- How far the interval of a double reaches below it, in units. The doubles below the least
significand of 53 bits are twice as dense. -/
def reachBelow (x : Binary64) : ℚ :=
  if x.significand = 2 ^ Binary64.fractionBits ∧ -1074 < x.exponent then 1 / 4 else 1 / 2

theorem reachBelow_le (x : Binary64) : reachBelow x ≤ 1 / 2 := by
  unfold reachBelow
  split <;> norm_num

theorem low_eq (h : 0 < x.significand) :
    ((Interval.of x).low : ℚ) * 2 ^ (Interval.of x).exponent =
      (x.significand - reachBelow x) * unit x := by
  have hunit : (2 : ℚ) ^ (Interval.of x).exponent = unit x / 4 := by
    rw [Interval.of, zpow_sub₀ (by norm_num), unit]
    norm_num
  have hlow : ((Interval.of x).low : ℚ) = 4 * (x.significand - reachBelow x) := by
    unfold Interval.of reachBelow
    simp only [decide_eq_true_eq]
    split
    · push_cast [Nat.cast_sub (show 1 ≤ 4 * x.significand by omega)]
      ring
    · push_cast [Nat.cast_sub (show 2 ≤ 4 * x.significand by omega)]
      ring
  rw [hunit, hlow]
  ring

theorem high_eq (x : Binary64) :
    ((Interval.of x).high : ℚ) * 2 ^ (Interval.of x).exponent =
      (x.significand + 1 / 2) * unit x := by
  rw [Interval.of, zpow_sub₀ (by norm_num), unit]
  push_cast
  ring

theorem middle_eq (x : Binary64) :
    ((Interval.of x).middle : ℚ) * 2 ^ (Interval.of x).exponent = x.magnitude := by
  rw [Interval.of, zpow_sub₀ (by norm_num), Binary64.magnitude]
  push_cast
  ring

/-- The interval of a double reaches half way to the next one in both directions. Its ends belong to
it if the significand is even. -/
theorem contains_iff (h : 0 < x.significand) : (Interval.of x).Contains r ↔
    if x.significand % 2 = 0 then
      (x.significand - reachBelow x) * unit x ≤ r ∧ r ≤ (x.significand + 1 / 2) * unit x
    else (x.significand - reachBelow x) * unit x < r ∧ r < (x.significand + 1 / 2) * unit x := by
  have hclosed : (Interval.of x).closed = true ↔ x.significand % 2 = 0 := decide_eq_true_iff
  unfold Interval.Contains
  simp only [low_eq h, high_eq, hclosed]

/-- The ends of the interval of a double, in units of its last bit. -/
theorem ends_of_contains (hx : 0 < x.significand) (h : (Interval.of x).Contains r) :
    (x.significand - reachBelow x) * unit x ≤ r ∧ r ≤ (x.significand + 1 / 2) * unit x ∧
      (x.significand % 2 = 1 → (x.significand - reachBelow x) * unit x < r ∧
        r < (x.significand + 1 / 2) * unit x) := by
  rw [contains_iff hx] at h
  split at h
  · rename_i heven
    exact ⟨h.1, h.2, fun hodd => by omega⟩
  · exact ⟨h.1.le, h.2.le, fun _ => h⟩

/-- There is no zero in the interval of a double that is not zero. -/
theorem pos_of_contains (hx : 0 < x.significand) (h : (Interval.of x).Contains r) : 0 < r := by
  have hone : (1 : ℚ) ≤ x.significand := mod_cast hx
  have hlower : 0 < (x.significand - reachBelow x) * unit x :=
    mul_pos (by linarith [reachBelow_le x]) (unit_pos x)
  exact hlower.trans_le (ends_of_contains hx h).1

/-- Numbers inside of the ends are in the interval in any case. -/
theorem contains_of_lt (h : 0 < x.significand)
    (hlow : (x.significand - reachBelow x) * unit x < r)
    (hhigh : r < (x.significand + 1 / 2) * unit x) : (Interval.of x).Contains r := by
  rw [contains_iff h]
  split
  · exact ⟨hlow.le, hhigh.le⟩
  · exact ⟨hlow, hhigh⟩

/-- A double is in its interval. -/
theorem contains_magnitude (h : 0 < x.significand) : (Interval.of x).Contains x.magnitude := by
  have hunit := unit_pos x
  have hreach : 0 < reachBelow x := by
    unfold reachBelow
    split <;> norm_num
  refine contains_of_lt h ?_ ?_
  · exact mul_lt_mul_of_pos_right (by linarith) hunit
  · exact mul_lt_mul_of_pos_right (by linarith) hunit

end CouplingMap.Decimal
