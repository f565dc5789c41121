import CouplingMap.Binary64.Basic

/-!
# Rounding to double precision

Arithmetic is exact in the integers and then rounded once, to the nearest double, with ties to
the even significand.

* `roundDiv`: a quotient of integers rounded to the nearest integer, ties to even.
* `ofRatio`: the double nearest to a quotient, infinite from the overflow threshold on.
* `ofNat`, `mul`, `div`: the operations on finite numbers that follow from it.
-/

namespace CouplingMap.Binary64

-- Powers of naturals are those of the core library wherever this is imported.
attribute [local instance (high)] instPowNat

/-- The integer nearest to `num / den`, the even one of two that are equally near. -/
def roundDiv (num den : Nat) : Nat :=
  let q := num / den
  let r := num % den
  if den < 2 * r ∨ (den = 2 * r ∧ q % 2 = 1) then q + 1 else q

/-- `num / den` divided by `2 ^ e`, again as a quotient. -/
def scale (e : Int) (num den : Nat) : Nat × Nat :=
  (num * 2 ^ (-e).toNat, den * 2 ^ e.toNat)

/-- The exponent of the last bit of the double nearest to `num / den`: the quotient holds 53
bits above it, fewer at the bottom of the range. -/
def lastBit (num den : Nat) : Int :=
  let e : Int := (num.log2 : Int) - den.log2 - 53
  let s := scale e num den
  max (-1074) (if 2 ^ (fractionBits + 1) * s.2 ≤ s.1 then e + 1 else e)

/-- The magnitude of the double nearest to `num / den`. The pattern of a magnitude counts the
doubles below it, so a carry out of the significand lands in the exponent field. -/
def nearestMagnitude (num den : Nat) : Nat :=
  let e := lastBit num den
  let s := scale e num den
  min infinityMagnitude ((e + 1074).toNat * 2 ^ fractionBits + roundDiv s.1 s.2)

/-- The double nearest to `num / den`, with a sign. -/
def ofRatio (negative : Bool) (num den : Nat) : Binary64 :=
  if num = 0 then zero negative else ofMagnitude negative (nearestMagnitude num den)

/-- The double nearest to a natural number. -/
def ofNat (n : Nat) : Binary64 := ofRatio false n 1

/-- The product of two finite numbers. -/
def mul (x y : Binary64) : Binary64 :=
  let s := scale (-(x.exponent + y.exponent)) (x.significand * y.significand) 1
  ofRatio (x.isNegative != y.isNegative) s.1 s.2

/-- The quotient of two finite numbers, the second of which is not zero. -/
def div (x y : Binary64) : Binary64 :=
  let s := scale (y.exponent - x.exponent) x.significand y.significand
  ofRatio (x.isNegative != y.isNegative) s.1 s.2

/-- The double nearest to a power of ten. -/
def tenPow (k : Nat) : Binary64 := ofNat (10 ^ k)

/-- Rounding a quotient is within half a unit of it. -/
theorem roundDiv_near {num den : Nat} (h : 0 < den) :
    2 * num ≤ (2 * roundDiv num den + 1) * den ∧ 2 * roundDiv num den * den ≤ 2 * num + den := by
  have hd := Nat.div_add_mod num den
  have hm := Nat.mod_lt num h
  simp only [roundDiv]
  generalize num / den = q at *
  generalize num % den = r at *
  split <;> grind

end CouplingMap.Binary64
