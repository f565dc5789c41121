import CouplingMap.Binary64.Rounding
import CouplingMap.Decimal.Notation
import CouplingMap.Decimal.Shortest
import CouplingMap.Json.Reader
import CouplingMap.Text.Numeral

/-!
# Numbers in JSON texts

A number text is cut into its parts first, and the parts are then given a value. An integer that
fits 64 bits stays an integer. Any other number becomes a double in two steps, each rounded: the
digits are gathered into a 64-bit significand, and this is multiplied or divided by a power of
ten. The result may therefore differ in its last bits from the double nearest to the text.

* `Numeral.scan`: the grammar.
* `Numeral.number`: the value of the parts; a number above all doubles is refused.
* `Number.write`: the text of a number. A double is written as its shortest decimal, without an
  exponent from `0.00001` up to sixteen digits before the point.
-/

namespace CouplingMap.Json

-- Powers of naturals are those of the core library wherever this is imported.
attribute [local instance (high)] instPowNat

/-- The parts of a number text. A part that is absent has no digits; an exponent has a sign and
digits. -/
structure Numeral where
  negative : Bool
  whole : List Char
  fraction : List Char
  exponent : Option (Bool × List Char)
deriving DecidableEq, Inhabited

namespace Numeral

/-! ## Grammar -/

/-- Reads one or more digits; `early` is the problem if the text ends before the first. -/
def scanDigits (early : ReadError) : Reader (List Char) := fun cs =>
  match cs with
  | [] => .error early
  | c :: _ =>
    if c.isDigit then .ok (cs.takeWhile Char.isDigit, cs.dropWhile Char.isDigit)
    else .error .malformed

/-- Reads the digits before the point. A leading zero stands alone. -/
def scanWhole (early : ReadError) : Reader (List Char) := fun cs => do
  let (ds, rest) ← scanDigits early cs
  if ds.head? = some '0' ∧ 1 < ds.length then .error .malformed else .ok (ds, rest)

/-- Reads a point and the digits after it, if there is a point. -/
def scanFraction (early : ReadError) : Reader (List Char) := fun cs =>
  match cs with
  | '.' :: rest => scanDigits early rest
  | _ => .ok ([], cs)

/-- Reads an exponent, if there is one; `true` stands for a minus sign. -/
def scanExponent (early : ReadError) : Reader (Option (Bool × List Char)) := fun cs =>
  match cs with
  | c :: rest =>
    if c = 'e' ∨ c = 'E' then
      let signed : Bool × List Char :=
        match rest with
        | '+' :: rest => (false, rest)
        | '-' :: rest => (true, rest)
        | _ => (false, rest)
      (scanDigits early signed.2).map fun r => (some (signed.1, r.1), r.2)
    else .ok (none, cs)
  | [] => .ok (none, [])

/-- Reads the parts of a number; `early` is the problem if the text ends inside of one. -/
def scan (early : ReadError) : Reader Numeral := fun cs => do
  let negative := cs.head? = some '-'
  let (whole, cs) ← scanWhole early (if negative then cs.drop 1 else cs)
  let (fraction, cs) ← scanFraction early cs
  let (exponent, cs) ← scanExponent early cs
  .ok (⟨negative, whole, fraction, exponent⟩, cs)

/-- Whether a number can start with the character. -/
def starts (c : Char) : Bool := c = '-' || c.isDigit

/-! ## Value -/

/-- Appends digits to a number as long as it stays below `2 ^ 64`, and answers the digits left. -/
def gather (n : Nat) : List Char → Nat × List Char
  | [] => (n, [])
  | c :: cs =>
    let m := Nat.ofDigitChars 10 [c] n
    if m < UInt64.size then gather m cs else (n, c :: cs)

/-- The largest power of ten used in one step. -/
def largestPower : Nat := 308

/-- Divides by a power of ten, in steps of at most `largestPower`. The first argument bounds the
number of steps. -/
def shrink : Nat → Binary64 → Nat → Binary64
  | 0, f, _ => f
  | bound + 1, f, k =>
    if k ≤ largestPower then f.div (Binary64.tenPow k)
    else if f.isZero then f
    else shrink bound (f.div (Binary64.tenPow largestPower)) (k - largestPower)

/-- A significand times a power of ten, `none` if it is too large. -/
def scaleByTen (f : Binary64) : Int → Option Binary64
  | .ofNat k =>
    if k ≤ largestPower then
      let g := f.mul (Binary64.tenPow k)
      if g.isFinite then some g else none
    else if f.isZero then some f else none
  | .negSucc k => some (shrink (k / largestPower + 1) f (k + 1))

/-- The number that an exponent stands for. -/
def exponentValue : Option (Bool × List Char) → Int
  | none => 0
  | some (negative, ds) =>
    if negative then -(Nat.ofDigitChars 10 ds 0 : Int) else Nat.ofDigitChars 10 ds 0

/-- The double of a significand and an exponent of ten, with a sign. -/
def double (negative : Bool) (significand : Nat) (exponent : Int) : Except ReadError Number :=
  match scaleByTen (Binary64.ofNat significand) exponent with
  | none => .error .malformed
  | some f => .ok (.double (if negative then f.neg else f))

/-- The number that the parts stand for. Whole digits beyond 64 bits only count as places, and
fraction digits beyond them are dropped. Minus zero, and integers below the signed 64-bit range,
are doubles. -/
def number (t : Numeral) : Except ReadError Number :=
  let (whole, beyond) := gather 0 t.whole
  if t.fraction = [] ∧ t.exponent = none ∧ beyond = [] then
    if t.negative then
      if whole = 0 ∨ 2 ^ (63 : Nat) < whole then .ok (.double (Binary64.ofNat whole).neg)
      else .ok (.integer (-whole))
    else .ok (.integer whole)
  else
    let (significand, dropped) := gather whole t.fraction
    double t.negative significand
      (beyond.length - (t.fraction.length - dropped.length) + exponentValue t.exponent)

/-- Reads a number. -/
def read : Reader Number := fun cs => do
  let (t, rest) ← scan .ended cs
  let n ← t.number
  .ok (n, rest)

end Numeral

/-! ## Writing -/

namespace Number

/-- The text of a decimal: positional if the point stands between five places before the first
digit and sixteen after it. -/
def writeDecimal (d : Decimal) : List Char :=
  let ds := Text.digits d.significand
  let point : Int := ds.length + d.exponent
  if -5 < point ∧ point ≤ 16 then Decimal.positional ds point
  else Decimal.scientific ds (point - 1)

/-- The text of a double. There are no texts for infinities and NaNs. -/
def writeDouble (x : Binary64) : List Char :=
  if !x.isFinite then ['n', 'u', 'l', 'l']
  else
    let magnitude := if x.isZero then ['0', '.', '0'] else writeDecimal (Decimal.shortest x)
    if x.isNegative then '-' :: magnitude else magnitude

/-- The text of an integer. -/
def writeInteger : Int → List Char
  | .ofNat n => Text.digits n
  | .negSucc n => '-' :: Text.digits (n + 1)

/-- The text of a number. -/
def write : Number → List Char
  | .integer i => writeInteger i
  | .double x => writeDouble x

/-- The double nearest to a number. -/
def toBinary64 : Number → Binary64
  | .integer i => Binary64.ofRatio (i < 0) i.natAbs 1
  | .double x => x

end Number

end CouplingMap.Json
