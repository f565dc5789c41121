import CouplingMap.Proofs.Decimal.Interval
import Mathlib.Data.Rat.Floor

/-!
# The shortest decimal of a double rounds to it

* `Decimal.digitsBeforePoint_spec`: the number of digits before the point is right.
* `Decimal.exists_pointOn?_of_half_grid`: a fine grid has a point in the interval, and seventeen
  digits are fine enough.
* `Decimal.contains_shortest`: the shortest decimal is in the interval, so it is not zero.
* `Decimal.shortest_lt`, `Decimal.le_shortest_exponent`: it has at most seventeen digits, and none
  of them stands below the last place of the least double.
-/

namespace CouplingMap.Decimal

-- Powers of naturals are those of the core library wherever this is imported.
attribute [local instance (high)] instPowNat

variable {x : Binary64} {i : Interval} {s : Int} {c : Nat}

/-! ## Digits before the point -/

/-- A power of two has as many digits as its estimate says, or one or two more. -/
theorem estimate_floor : ∀ n < 1100, 10 ^ (n * 30103 / 100000) ≤ 10 * 2 ^ n ∧
    2 ^ n ≤ 50 * 10 ^ (n * 30103 / 100000) := by
  decide +kernel

theorem estimate_ceil : ∀ n < 1100, 2 ^ n ≤ 10 * 10 ^ ((n * 30103 + 99999) / 100000) ∧
    10 ^ ((n * 30103 + 99999) / 100000) ≤ 50 * 2 ^ n := by
  decide +kernel

theorem estimate_bounds {l : Int} (hlow : -1100 < l) (hhigh : l < 1100) :
    (10 : ℚ) ^ ((l * 30103).fdiv 100000 - 1) ≤ 2 ^ l ∧
      2 * 2 ^ l ≤ (10 : ℚ) ^ ((l * 30103).fdiv 100000 + 2) := by
  have hten : (10 : ℚ) ≠ 0 := by norm_num
  rw [Int.fdiv_eq_ediv_of_nonneg _ (by decide), zpow_sub_one₀ hten, zpow_add₀ hten]
  rcases Int.eq_nat_or_neg l with ⟨n, rfl | rfl⟩
  · obtain ⟨hle, hge⟩ := estimate_floor n (by omega)
    rw [← Nat.cast_le (α := ℚ)] at hle hge
    push_cast at hle hge
    rw [show (n * 30103 : Int) / 100000 = (n * 30103 / 100000 : Nat) by omega, zpow_natCast,
      zpow_natCast]
    constructor <;> linarith
  · obtain ⟨hle, hge⟩ := estimate_ceil n (by omega)
    rw [← Nat.cast_le (α := ℚ)] at hle hge
    push_cast at hle hge
    rw [show (-n * 30103 : Int) / 100000 = -((n * 30103 + 99999) / 100000 : Nat) by omega, zpow_neg,
      zpow_neg, zpow_natCast, zpow_natCast, ← mul_inv]
    have hceil : (0 : ℚ) < 10 ^ ((n * 30103 + 99999) / 100000) := by positivity
    have htwo : (0 : ℚ) < 2 ^ n := by positivity
    constructor
    · exact inv_anti₀ htwo (by linarith)
    · rw [← div_eq_mul_inv, inv_mul_eq_div, div_le_div_iff₀ htwo hceil]
      norm_num
      linarith

/-- The middle of an interval. -/
def Interval.centre (i : Interval) : ℚ := i.middle * 2 ^ i.exponent

theorem centre_of (x : Binary64) : (Interval.of x).centre = x.magnitude := middle_eq x

/-- The number of digits before the point is right. -/
theorem digitsBeforePoint_spec (hmiddle : 0 < i.middle)
    (hlow : -1100 < (i.middle.log2 : Int) + i.exponent)
    (hhigh : (i.middle.log2 : Int) + i.exponent < 1100) :
    (10 : ℚ) ^ (i.digitsBeforePoint - 1) ≤ i.centre ∧ i.centre < 10 ^ i.digitsBeforePoint := by
  obtain ⟨hguess, hguess'⟩ := estimate_bounds hlow hhigh
  have hunit : (0 : ℚ) < 2 ^ i.exponent := by positivity
  have hpower : (2 : ℚ) ^ ((i.middle.log2 : Int) + i.exponent) =
      (2 ^ i.middle.log2 : Nat) * 2 ^ i.exponent := by
    rw [zpow_add₀ (by norm_num), zpow_natCast]
    push_cast
    rfl
  have hleast : (2 : ℚ) ^ ((i.middle.log2 : Int) + i.exponent) ≤ i.centre := by
    rw [hpower]
    exact mul_le_mul_of_nonneg_right (Nat.cast_le.2 (Nat.log2_self_le hmiddle.ne')) hunit.le
  have hmost : i.centre < 2 * (2 : ℚ) ^ ((i.middle.log2 : Int) + i.exponent) := by
    have hlog : i.middle < 2 * 2 ^ i.middle.log2 := by
      rw [← Nat.pow_succ']
      exact Nat.lt_log2_self
    rw [hpower, ← mul_assoc]
    exact mul_lt_mul_of_pos_right (mod_cast hlog) hunit
  have hbelow (e : Int) : (toCommon 1 e i.middle i.exponent).2 <
      (toCommon 1 e i.middle i.exponent).1 ↔ i.centre < 10 ^ e := by
    rw [lt_iff_lt_of_le_iff_le toCommon_le, Nat.cast_one, one_mul, Interval.centre]
  unfold Interval.digitsBeforePoint
  simp only [decide_eq_true_eq, hbelow]
  split
  · rename_i hfirst
    exact ⟨hguess.trans hleast, hfirst⟩
  · rename_i hfirst
    split
    · rename_i hsecond
      rw [add_sub_cancel_right]
      exact ⟨not_lt.1 hfirst, hsecond⟩
    · rename_i hsecond
      rw [add_sub_assoc]
      exact ⟨not_lt.1 hsecond, hmost.trans_le hguess'⟩

/-- The digits before the point of a double. -/
theorem digitsBeforePoint_of (hx : 0 < x.significand) :
    (10 : ℚ) ^ ((Interval.of x).digitsBeforePoint - 1) ≤ x.magnitude ∧
      x.magnitude < 10 ^ (Interval.of x).digitsBeforePoint := by
  have hlog : (4 * x.significand).log2 < 55 :=
    (Nat.log2_lt (by omega)).2 (by have := x.significand_lt; omega)
  have hlow := x.exponent_ge
  have hhigh := x.exponent_le
  have hexponent : (Interval.of x).exponent = x.exponent - 2 := rfl
  have hmiddle : (Interval.of x).middle = 4 * x.significand := rfl
  rw [← hmiddle] at hlog
  rw [← centre_of]
  exact digitsBeforePoint_spec (by omega) (by omega) (by omega)

/-! ## Points of a grid -/

/-- The point of a grid that is not above the middle. -/
def Interval.floor (i : Interval) (s : Int) : Nat :=
  (toCommon 1 s i.middle i.exponent).2 / (toCommon 1 s i.middle i.exponent).1

theorem floor_lt_iff {k : Nat} : i.floor s < k ↔ i.centre < k * 10 ^ s := by
  have hfactor := commonFactor_pos s i.exponent
  have hunit := toCommon_fst 1 s i.middle i.exponent
  have hcentre := toCommon_snd 1 s i.middle i.exponent
  rw [Nat.cast_one, one_mul] at hunit
  rw [← Interval.centre] at hcentre
  have hpos : 0 < (toCommon 1 s i.middle i.exponent).1 := by
    rw [← Nat.cast_pos (α := ℚ), hunit]
    positivity
  rw [Interval.floor, Nat.div_lt_iff_lt_mul hpos, ← Nat.cast_lt (α := ℚ), Nat.cast_mul, hcentre,
    hunit, ← mul_assoc, mul_lt_mul_iff_left₀ hfactor]

/-- A point that is taken from a grid is one of the two next to the middle, and in the interval. -/
theorem of_pointOn?_eq_some (h : i.pointOn? s = some c) :
    (c = i.floor s ∨ c = i.floor s + 1) ∧ i.holds c s = true := by
  unfold Interval.pointOn? at h
  dsimp only at h
  rw [← Interval.floor] at h
  split at h
  · rename_i hf hg
    split at h
    · exact Option.some.inj h ▸ ⟨Or.inl rfl, hf⟩
    · split at h
      · exact Option.some.inj h ▸ ⟨Or.inr rfl, hg⟩
      · split at h
        · exact Option.some.inj h ▸ ⟨Or.inl rfl, hf⟩
        · exact Option.some.inj h ▸ ⟨Or.inr rfl, hg⟩
  · rename_i hf hg
    exact Option.some.inj h ▸ ⟨Or.inl rfl, hf⟩
  · rename_i hf hg
    exact Option.some.inj h ▸ ⟨Or.inr rfl, hg⟩
  · contradiction

theorem contains_of_pointOn? (h : i.pointOn? s = some c) : i.Contains (c * 10 ^ s) :=
  Interval.holds_iff.1 (of_pointOn?_eq_some h).2

/-- A point that is taken from a grid is not beyond the next one above the middle. -/
theorem pointOn?_le {k : Nat} (h : i.pointOn? s = some c) (hk : i.centre < k * 10 ^ s) :
    c ≤ k := by
  have hfloor := floor_lt_iff.2 hk
  have hnext := (of_pointOn?_eq_some h).1
  omega

/-- A grid has a point in an interval if one of the two points next to the middle is in it. -/
theorem exists_pointOn? {f : Nat} (hf : (f : ℚ) * 10 ^ s ≤ i.centre)
    (hg : i.centre < (f + 1 : Nat) * 10 ^ s)
    (h : i.Contains (f * 10 ^ s) ∨ i.Contains ((f + 1 : Nat) * 10 ^ s)) :
    ∃ c, i.pointOn? s = some c := by
  have hfloor : i.floor s = f :=
    Nat.le_antisymm (Nat.le_of_lt_succ (floor_lt_iff.2 hg))
      (Nat.not_lt.1 (floor_lt_iff.not.2 (not_lt.2 hf)))
  rw [Interval.floor] at hfloor
  unfold Interval.pointOn?
  simp only [hfloor]
  rw [← Interval.holds_iff, ← Interval.holds_iff] at h
  split
  · split
    · exact ⟨_, rfl⟩
    · split
      · exact ⟨_, rfl⟩
      · split <;> exact ⟨_, rfl⟩
  · exact ⟨_, rfl⟩
  · exact ⟨_, rfl⟩
  · rename_i hf hg
    rw [hf, hg] at h
    rcases h with h | h <;> contradiction

/-! ## Seventeen digits -/

/-- A grid that is finer than the interval of a double has a point in it. -/
theorem exists_pointOn?_of_half_grid (hx : 0 < x.significand)
    (hhalf : (10 : ℚ) ^ s / 2 < reachBelow x * unit x) :
    ∃ c, (Interval.of x).pointOn? s = some c := by
  have hcentre := centre_of x
  have hgrid : (0 : ℚ) < 10 ^ s := by positivity
  have hnonneg : 0 ≤ x.magnitude / 10 ^ s := by
    have := x.magnitude_nonneg
    positivity
  have hfloor := (le_div_iff₀ hgrid).1 (Nat.floor_le hnonneg)
  have hceil := (div_lt_iff₀ hgrid).1 (Nat.lt_floor_add_one (x.magnitude / 10 ^ s))
  generalize ⌊x.magnitude / 10 ^ s⌋₊ = f at *
  refine exists_pointOn? (f := f) (by rwa [hcentre]) (by rwa [hcentre, Nat.cast_add_one]) ?_
  have hreach := reachBelow_le x
  have hunit := unit_pos x
  unfold Binary64.magnitude at *
  rw [← unit] at *
  rcases le_total (x.significand * unit x) ((f + 1 / 2) * 10 ^ s) with h | h
  · exact Or.inl (contains_of_lt hx (by nlinarith) (by nlinarith))
  · exact Or.inr (contains_of_lt hx (by push_cast; nlinarith) (by push_cast; nlinarith))

/-- A grid of seventeen digits has points that are nearer than the ends of the interval. -/
theorem half_grid_lt {e : Int} (h : (10 : ℚ) ^ (e - 1) ≤ x.magnitude) :
    (10 : ℚ) ^ (e - 17) / 2 < reachBelow x * unit x := by
  have hgrid : (10 : ℚ) ^ (e - 1) = 10 ^ 16 * 10 ^ (e - 17) := by
    rw [← zpow_natCast, ← zpow_add₀ (by norm_num)]
    congr 1
    omega
  have hunit := unit_pos x
  rw [hgrid, Binary64.magnitude, ← unit] at h
  unfold reachBelow
  split
  · rename_i hm
    rw [hm.1, Nat.cast_pow] at h
    norm_num [Binary64.fractionBits] at h
    linarith
  · have hm : (x.significand : ℚ) < 2 ^ 53 := mod_cast x.significand_lt
    nlinarith

/-- Seventeen digits are enough. -/
theorem exists_pointOn?_seventeen (hx : 0 < x.significand) :
    ∃ c, (Interval.of x).pointOn? ((Interval.of x).digitsBeforePoint - 17) = some c :=
  exists_pointOn?_of_half_grid hx (half_grid_lt (digitsBeforePoint_of hx).1)

/-! ## The decimal that is found -/

/-- The first grid that has a point in the interval gives the shortest decimal. -/
theorem exists_grid (hx : 0 < x.significand) : ∃ k c : Nat, k ≤ 17 ∧
    (Interval.of x).pointOn? ((Interval.of x).digitsBeforePoint - k) = some c ∧
    (∀ j : Nat, 1 ≤ j → j < k →
      (Interval.of x).pointOn? ((Interval.of x).digitsBeforePoint - j) = none) ∧
    shortest x = if c = 10 ^ k then ⟨1, (Interval.of x).digitsBeforePoint⟩
      else ⟨c, (Interval.of x).digitsBeforePoint - k⟩ := by
  obtain ⟨c, hc⟩ := exists_pointOn?_seventeen hx
  unfold shortest
  dsimp only
  generalize hsearch : List.findSome? _ _ = found
  cases found with
  | none =>
    have h := List.findSome?_eq_none_iff.1 hsearch 17 (by decide)
    rw [Option.map_eq_none_iff] at h
    exact absurd (hc.symm.trans h) nofun
  | some d =>
    obtain ⟨before, k, after, hsplit, hk, hnone⟩ := List.findSome?_eq_some_iff.1 hsearch
    obtain ⟨c, hc, rfl⟩ := Option.map_eq_some_iff.1 hk
    have hmem : k ∈ List.range' 1 17 := by
      rw [hsplit]
      simp
    have hrange := List.mem_range'_1.1 hmem
    refine ⟨k, c, by omega, hc, fun j hj hjk => ?_, rfl⟩
    -- Smaller numbers stand before `k` in the range.
    have hj : j ∈ before ++ k :: after := hsplit ▸ List.mem_range'_1.2 ⟨hj, by omega⟩
    have hsorted := List.pairwise_append.1 (hsplit ▸ List.pairwise_lt_range' (s := 1) (n := 17))
    rcases List.mem_append.1 hj with hj | hj
    · exact Option.map_eq_none_iff.1 (hnone j hj)
    · rcases List.mem_cons.1 hj with rfl | hj
      · exact absurd hjk (Nat.lt_irrefl _)
      · exact absurd ((List.pairwise_cons.1 hsorted.2.1).1 j hj) (Nat.lt_asymm hjk)

/-- The shortest decimal of a double is in the interval of the double. -/
theorem contains_shortest (hx : 0 < x.significand) :
    (Interval.of x).Contains ((shortest x).significand * 10 ^ (shortest x).exponent) := by
  obtain ⟨k, c, -, hc, -, heq⟩ := exists_grid hx
  have hcontains := contains_of_pointOn? hc
  rw [heq]
  split
  · rename_i hpower
    rwa [hpower, Nat.cast_pow, Nat.cast_ofNat (R := ℚ) (n := 10), ← zpow_natCast,
      ← zpow_add₀ (by norm_num), add_sub_cancel, ← one_mul (_ ^ _), ← Nat.cast_one] at hcontains
  · exact hcontains

/-- The shortest decimal of a double that is not zero is not zero. -/
theorem shortest_pos (hx : 0 < x.significand) : 0 < (shortest x).significand := by
  have hpos := pos_of_contains hx (contains_shortest hx)
  refine Nat.pos_of_ne_zero fun hzero => ?_
  rw [hzero, Nat.cast_zero, zero_mul] at hpos
  exact lt_irrefl _ hpos

/-- The shortest decimal has at most seventeen digits. -/
theorem shortest_lt (hx : 0 < x.significand) : (shortest x).significand < 10 ^ 17 := by
  obtain ⟨k, c, hk, hc, -, heq⟩ := exists_grid hx
  rw [heq]
  split
  · exact Nat.one_lt_pow (by decide) (by decide)
  · rename_i hpower
    have hle : c ≤ 10 ^ k := by
      refine pointOn?_le hc ?_
      rw [centre_of, Nat.cast_pow, Nat.cast_ofNat (R := ℚ) (n := 10), ← zpow_natCast,
        ← zpow_add₀ (by norm_num), add_sub_cancel]
      exact (digitsBeforePoint_of hx).2
    exact (Nat.lt_of_le_of_ne hle hpower).trans_le (Nat.pow_le_pow_right (by decide) hk)

/-- The grid of `10 ^ (-324)` is finer than the least double. -/
theorem least_grid_lt : 2 * (10 : ℚ) ^ (-324 : Int) < 2 ^ (-1074 : Int) := by
  have hpowers : 2 * 2 ^ 1074 < 10 ^ 324 := by decide +kernel
  rw [← Nat.cast_lt (α := ℚ), Nat.cast_mul, Nat.cast_pow, Nat.cast_pow] at hpowers
  rw [show (-324 : Int) = -(324 : Nat) from rfl, show (-1074 : Int) = -(1074 : Nat) from rfl,
    zpow_neg, zpow_neg, zpow_natCast, zpow_natCast, ← div_eq_mul_inv, ← one_div,
    div_lt_div_iff₀ (by positivity) (by positivity), one_mul]
  exact hpowers

/-- No digit of the shortest decimal stands below the last place of the least double. -/
theorem le_shortest_exponent (hx : 0 < x.significand) : -324 ≤ (shortest x).exponent := by
  obtain ⟨k, c, hk, -, hnone, heq⟩ := exists_grid hx
  have hleast := least_grid_lt
  have hunit : (2 : ℚ) ^ (-1074 : Int) ≤ unit x := zpow_le_zpow_right₀ (by norm_num) x.exponent_ge
  have hdigits : -324 < (Interval.of x).digitsBeforePoint := by
    have hone : (1 : ℚ) ≤ x.significand := mod_cast hx
    have hmagnitude := (digitsBeforePoint_of hx).2
    rw [Binary64.magnitude, ← unit] at hmagnitude
    have hpositive : (0 : ℚ) < 10 ^ (-324 : Int) := by positivity
    refine (zpow_lt_zpow_iff_right₀ (a := (10 : ℚ)) (by norm_num)).1 ?_
    nlinarith
  have hgrid : -324 ≤ (Interval.of x).digitsBeforePoint - k := by
    have hreach : 1 / 4 * unit x ≤ reachBelow x * unit x := by
      refine mul_le_mul_of_nonneg_right ?_ (unit_pos x).le
      unfold reachBelow
      split <;> norm_num
    obtain ⟨p, hp⟩ := exists_pointOn?_of_half_grid (s := -324) hx (by linarith)
    by_contra hlt
    have h := hnone ((Interval.of x).digitsBeforePoint + 324).toNat (by omega) (by omega)
    rw [show (Interval.of x).digitsBeforePoint -
      (((Interval.of x).digitsBeforePoint + 324).toNat : Nat) = -324 by omega, hp] at h
    contradiction
  rw [heq]
  split
  · exact hdigits.le
  · exact hgrid

end CouplingMap.Decimal
