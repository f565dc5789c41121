import CouplingMap.Binary64.Basic

/-!
# The shortest decimal of a double

Every double stands for an interval of real numbers that round to it: from half way to its lower
neighbour to half way to its upper one, ends included if its significand is even. The shortest
decimal is the one of fewest digits in that interval, and of those the nearest to the double.

* `Interval`: the interval, scaled to integers.
* `shortest`: searches the grids of one digit, two digits, and so on. A grid has a point in the
  interval only if one of the two points next to the double is in it.
-/

namespace CouplingMap

/-- The number `significand * 10 ^ exponent`. -/
structure Decimal where
  significand : Nat
  exponent : Int
deriving DecidableEq, Inhabited

namespace Decimal

-- Powers of naturals are those of the core library wherever this is imported.
attribute [local instance (high)] instPowNat

/-- The numbers that round to a double, in units of `2 ^ exponent`. -/
structure Interval where
  low : Nat
  middle : Nat
  high : Nat
  exponent : Int
  /-- Whether the ends belong to the interval. -/
  closed : Bool

/-- The interval of a positive finite double. Below a power of two the doubles are twice as
dense, so there the lower half is half as wide. -/
def Interval.of (x : Binary64) : Interval :=
  let m := x.significand
  let atPower : Bool := m = 2 ^ Binary64.fractionBits ∧ -1074 < x.exponent
  { low := if atPower then 4 * m - 1 else 4 * m - 2
    middle := 4 * m
    high := 4 * m + 2
    exponent := x.exponent - 2
    closed := m % 2 = 0 }

/-- `c * 10 ^ s` and `b * 2 ^ e`, brought to a common scale. -/
def toCommon (c : Nat) (s : Int) (b : Nat) (e : Int) : Nat × Nat :=
  (c * 10 ^ s.toNat * 2 ^ (-e).toNat, b * 2 ^ e.toNat * 10 ^ (-s).toNat)

/-- Whether `c * 10 ^ s` lies in the interval. -/
def Interval.holds (i : Interval) (c : Nat) (s : Int) : Bool :=
  let low := toCommon c s i.low i.exponent
  let high := toCommon c s i.high i.exponent
  if i.closed then low.2 ≤ low.1 && high.1 ≤ high.2 else low.2 < low.1 && high.1 < high.2

/-- The number of digits before the decimal point of the middle: the least `e` with
`middle < 10 ^ e`. -/
def Interval.digitsBeforePoint (i : Interval) : Int :=
  let guess : Int := (((i.middle.log2 : Int) + i.exponent) * 30103).fdiv 100000
  let below (e : Int) : Bool :=
    let c := toCommon 1 e i.middle i.exponent
    c.2 < c.1
  if below guess then guess else if below (guess + 1) then guess + 1 else guess + 2

/-- The point of the grid `10 ^ s` that lies in the interval and is nearest to its middle. -/
def Interval.pointOn? (i : Interval) (s : Int) : Option Nat :=
  let c := toCommon 1 s i.middle i.exponent
  let f := c.2 / c.1
  match i.holds f s, i.holds (f + 1) s with
  | true, true =>
    if 2 * c.2 < (2 * f + 1) * c.1 then some f
    else if (2 * f + 1) * c.1 < 2 * c.2 then some (f + 1)
    else if f % 2 = 0 then some f else some (f + 1)
  | true, false => some f
  | false, true => some (f + 1)
  | false, false => none

/-- The shortest decimal of a positive finite double: at most seventeen digits are needed. A
point that is a power of ten is written with the one digit it needs. -/
def shortest (x : Binary64) : Decimal :=
  let i := Interval.of x
  let e := i.digitsBeforePoint
  let onGrid (k : Nat) : Option Decimal :=
    (i.pointOn? (e - k)).map fun c => if c = 10 ^ k then ⟨1, e⟩ else ⟨c, e - k⟩
  ((List.range' 1 17).findSome? onGrid).getD ⟨0, 0⟩

end Decimal

end CouplingMap
