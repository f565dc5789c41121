import CouplingMap.Binary64.Rounding
import CouplingMap.Decimal.Notation
import CouplingMap.Decimal.Shortest
import CouplingMap.Yaml.Event

/-!
# Kinds of scalars

A plain scalar is nothing, a truth value, a number or a text, as its characters show. A tag can
settle the kind of any scalar. Other scalars are texts.

* `isNull`, `truth?`, `unsigned?`, `negative?`, `floatParts?`: what characters stand for.
* `Scalar.canBe`: whether a scalar can be of a kind other than text.
* `Scalar.mismatch`: what is wrong with a scalar where something else is asked for.
-/

namespace CouplingMap.Yaml

-- Powers of naturals are those of the core library wherever this is imported.
attribute [local instance (high)] instPowNat

/-! ## Nothing and truth values -/

/-- Whether characters stand for nothing. -/
def isNull (s : List Char) : Bool := String.ofList s ∈ ["", "null", "Null", "NULL", "~"]

/-- A truth value, in lower case, upper case or capitalised. -/
def truth? (s : List Char) : Option Bool :=
  if String.ofList s ∈ ["true", "True", "TRUE"] then some true
  else if String.ofList s ∈ ["false", "False", "FALSE"] then some false
  else none

/-! ## Integers -/

/-- The value of a digit in a base up to sixteen. -/
def baseDigit? (base : Nat) (c : Char) : Option Nat := (Text.hexValue? c).filter (· < base)

/-- The number of a non-empty run of digits in a base. -/
def inBase? (base : Nat) (s : List Char) : Option Nat :=
  if s = [] then none else s.foldlM (fun n c => (baseDigit? base c).map fun d => n * base + d) 0

/-- A number without a sign: decimal without leading zeros, or with one of the marks for the bases
sixteen, eight and two. -/
def magnitude? : List Char → Option Nat
  | '0' :: 'x' :: rest => inBase? 16 rest
  | '0' :: 'o' :: rest => inBase? 8 rest
  | '0' :: 'b' :: rest => inBase? 2 rest
  | '0' :: _ :: _ => none
  | s => inBase? 10 s

/-- A number that may have a plus sign. -/
def unsigned? : List Char → Option Nat
  | '+' :: s => magnitude? s
  | s => magnitude? s

/-- The magnitude of a number with a minus sign. -/
def negative? : List Char → Option Nat
  | '-' :: s => magnitude? s
  | _ => none

/-- An integer as it is named in a message. Those beyond 64 bits are named with their width. -/
def integerText? (s : List Char) : Option String :=
  let named (sign : List Char) (n : Nat) (width : String) : String :=
    "integer `" ++ String.ofList (sign ++ Text.digits n) ++ "`" ++ width
  match unsigned? s, negative? s with
  | some n, _ =>
    if n < 2 ^ (64 : Nat) then some (named [] n "")
    else if n < 2 ^ (128 : Nat) then some (named [] n " as u128")
    else none
  | none, some n =>
    let sign := if n = 0 then [] else ['-']
    if n ≤ 2 ^ (63 : Nat) then some (named sign n "")
    else if n ≤ 2 ^ (127 : Nat) then some (named sign n " as i128")
    else none
  | none, none => none

/-! ## Doubles -/

/-- The parts of a number with a point or an exponent: the sign, the digits, and the power of ten of
the last digit. -/
structure FloatNumeral where
  negative : Bool
  digits : List Char
  exponent : Int

/-- A run of digits with a sign. -/
def signed? (s : List Char) : Option Int :=
  match s with
  | '-' :: ds => (Text.digitRun? ds).map fun n => -(n : Int)
  | '+' :: ds => (Text.digitRun? ds).map Int.ofNat
  | ds => (Text.digitRun? ds).map Int.ofNat

/-- The parts of a number without a sign. There has to be a digit before the exponent. -/
def floatParts? (negative : Bool) (s : List Char) : Option FloatNumeral := do
  let mantissa := s.takeWhile fun c => c ≠ 'e' ∧ c ≠ 'E'
  let exponent ←
    match s.drop mantissa.length with
    | [] => some 0
    | _ :: power => signed? power
  let whole := mantissa.takeWhile Char.isDigit
  let fraction ←
    match mantissa.drop whole.length with
    | [] => some []
    | '.' :: fraction => some fraction
    | _ => none
  let digits := whole ++ fraction
  if digits ≠ [] ∧ digits.all Char.isDigit then
    some ⟨negative, digits, exponent - fraction.length⟩
  else none

/-- The number of places beyond which a number is infinite or nothing. -/
def maxPlaces : Nat := 400

/-- The double nearest to a number, unless it is too large. -/
def FloatNumeral.double? (f : FloatNumeral) : Option Binary64 :=
  let digits := f.digits.dropWhile (· = '0')
  let n := Nat.ofDigitChars 10 digits 0
  let places : Int := digits.length + f.exponent
  if digits = [] ∨ places < -maxPlaces then some (Binary64.zero f.negative)
  else if maxPlaces < places then none
  else
    let x := Binary64.ofRatio f.negative (n * 10 ^ f.exponent.toNat) (10 ^ (-f.exponent).toNat)
    if x.isFinite then some x else none

/-- Whether characters are digits that are no number, since zeros stand before them. -/
def isPadded (s : List Char) : Bool :=
  let digits := if s.head? = some '-' ∨ s.head? = some '+' then s.tail else s
  digits.head? = some '0' && 1 < digits.length && digits.all Char.isDigit

/-- The text of a finite double, always with a point and never with an exponent. -/
def doubleText (x : Binary64) : List Char :=
  let d := Decimal.shortest x
  let ds := Text.digits d.significand
  let magnitude :=
    if x.isZero then ['0', '.', '0'] else Decimal.positional ds (ds.length + d.exponent)
  if x.isNegative then '-' :: magnitude else magnitude

/-- A number of any size, infinity or the mark of no number, as it is named in a message. -/
def floatText? (s : List Char) : Option String :=
  let named (text : String) : String := "floating point `" ++ text ++ "`"
  let plus := s.head? = some '+'
  let t := if plus then s.tail else s
  let special := [".inf", ".Inf", ".INF"]
  if plus ∧ (t.head? = some '+' ∨ t.head? = some '-') then none
  else if String.ofList t ∈ special then some (named "inf")
  else if String.ofList s ∈ special.map ("-" ++ ·) then some (named "-inf")
  else if String.ofList s ∈ [".nan", ".NaN", ".NAN"] then some (named "NaN")
  else
    let parts :=
      if t.head? = some '-' then floatParts? true t.tail else floatParts? false t
    (parts.bind FloatNumeral.double?).map fun x => named (String.ofList (doubleText x))

/-! ## Scalars -/

/-- A tag of the standard kinds. -/
def standardTag (kind : String) : List Char := "tag:yaml.org,2002:".toList ++ kind.toList

namespace Scalar

/-- Whether a scalar can be of a kind other than text: it is plain, or it is a literal block with
the tag of the kind. -/
def canBe (kind : String) (s : Scalar) : Bool :=
  s.style = .plain || (s.style = .literal && s.tag = some (standardTag kind))

/-- A text as it is named in a message. -/
def textName (s : Scalar) : String := "string " ++ Text.escaped (String.ofList s.text)

/-- A truth value as it is named in a message. -/
def truthText? (s : List Char) : Option String :=
  (truth? s).map fun b => "boolean `" ++ (if b then "true" else "false") ++ "`"

/-- A plain scalar without a tag as it is named in a message. -/
def plainName (s : Scalar) : String :=
  if isNull s.text then "unit value"
  else
    ((truthText? s.text).or ((integerText? s.text).or
      (if isPadded s.text then none else floatText? s.text))).getD s.textName

/-- What is wrong with a scalar where something else is asked for. -/
def mismatch (s : Scalar) (expected : String) : Mismatch :=
  let tagged (found : Option String) (kind : String) : Mismatch :=
    match found with
    | some found => .wrongKind found expected
    | none => .wrongText (String.ofList s.text) kind
  let plain := .wrongKind (if s.style = .plain then s.plainName else s.textName) expected
  match s.tag with
  | none => plain
  | some tag =>
    if tag = standardTag "bool" then tagged (truthText? s.text) "a boolean"
    else if tag = standardTag "int" then tagged (integerText? s.text) "an integer"
    else if tag = standardTag "float" then tagged (floatText? s.text) "a float"
    else if tag = standardTag "null" then
      tagged (if s.text ≠ [] ∧ isNull s.text then some "unit value" else none) "null"
    else if tag.head? = some '!' then plain
    else .wrongKind s.textName expected

end Scalar

end CouplingMap.Yaml
