/-!
# Double precision numbers as bit patterns

A number is its 64 bits: a sign bit, eleven exponent bits and 52 fraction bits. A finite number
has the magnitude `significand * 2 ^ exponent`, with integers on both sides.

* `isFinite`, `isNaN`: the classes of patterns.
* `significand`, `exponent`: the magnitude of a finite number.
* `sameNumber`: equality of values, where the two zeros are equal and a NaN equals nothing.
-/

namespace CouplingMap

/-- A double precision number, given by its bits. -/
structure Binary64 where
  bits : UInt64
deriving DecidableEq, Inhabited

namespace Binary64

-- Powers of naturals are those of the core library wherever this is imported.
attribute [local instance (high)] instPowNat

/-- The number of fraction bits. -/
def fractionBits : Nat := 52

/-- The number of exponent bits. -/
def exponentBits : Nat := 11

/-- The number of bits below the sign bit. -/
def magnitudeBits : Nat := 63

/-- The exponent field, all ones in infinities and NaNs. -/
def exponentField (x : Binary64) : Nat := x.bits.toNat / 2 ^ fractionBits % 2 ^ exponentBits

/-- The fraction field. -/
def fraction (x : Binary64) : Nat := x.bits.toNat % 2 ^ fractionBits

/-- Whether the sign bit is set. -/
def isNegative (x : Binary64) : Bool := 2 ^ magnitudeBits ≤ x.bits.toNat

/-- Neither an infinity nor a NaN. -/
def isFinite (x : Binary64) : Bool := x.exponentField ≠ 2047

/-- Not a number: all ones in the exponent field and a fraction. -/
def isNaN (x : Binary64) : Bool := x.exponentField = 2047 ∧ x.fraction ≠ 0

/-- One of the two zeros. -/
def isZero (x : Binary64) : Bool := x.bits.toNat % 2 ^ magnitudeBits = 0

/-- The integer significand of a finite number; the leading bit is implicit in normal numbers. -/
def significand (x : Binary64) : Nat :=
  if x.exponentField = 0 then x.fraction else 2 ^ fractionBits + x.fraction

/-- The exponent of two that goes with `significand`. -/
def exponent (x : Binary64) : Int :=
  if x.exponentField = 0 then -1074 else (x.exponentField : Int) - 1075

/-- The pattern with a magnitude below `2 ^ 63` and a sign. -/
def ofMagnitude (negative : Bool) (magnitude : Nat) : Binary64 :=
  ⟨UInt64.ofNat (if negative then 2 ^ magnitudeBits + magnitude else magnitude)⟩

/-- Zero with a sign. -/
def zero (negative : Bool) : Binary64 := ofMagnitude negative 0

/-- The magnitude of the infinities, just above every finite one. -/
def infinityMagnitude : Nat := 2047 * 2 ^ fractionBits

/-- The number with the other sign. -/
def neg (x : Binary64) : Binary64 := ⟨x.bits ^^^ 0x8000000000000000⟩

/-- Equality as numbers. -/
def sameNumber (x y : Binary64) : Bool :=
  !x.isNaN && !y.isNaN && (x == y || x.isZero && y.isZero)

/-- One. -/
def one : Binary64 := ⟨0x3FF0000000000000⟩

/-- A finite number is not a NaN. -/
theorem not_isNaN_of_isFinite {x : Binary64} (h : x.isFinite = true) : x.isNaN = false := by
  simp_all [isFinite, isNaN]

/-- On finite numbers equality as numbers is reflexive. -/
theorem sameNumber_self {x : Binary64} (h : x.isFinite = true) : x.sameNumber x = true := by
  simp [sameNumber, not_isNaN_of_isFinite h]

end Binary64

end CouplingMap
