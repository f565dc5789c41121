/-!
# Unsigned decimal numerals

A numeral is an optional `+` and one or more ASCII digits; leading zeros are allowed.

* `hexValue?`: the value of a digit in a base up to sixteen.
* `numeral?`: the number a numeral stands for.
* `bounded?`: the same, if the number is below a bound.
* `digits`: the shortest numeral of a number, which `numeral?` reads back (`numeral?_digits`).
-/

namespace CouplingMap.Text

/-- The value of a hexadecimal digit. -/
def hexValue? (c : Char) : Option Nat :=
  if c.isDigit then some (c.toNat - '0'.toNat)
  else if 'a' ≤ c ∧ c ≤ 'f' then some (c.toNat - 'a'.toNat + 10)
  else if 'A' ≤ c ∧ c ≤ 'F' then some (c.toNat - 'A'.toNat + 10)
  else none

/-- The number that a non-empty run of digits stands for. -/
def digitRun? (s : List Char) : Option Nat :=
  if s ≠ [] ∧ s.all Char.isDigit then some (Nat.ofDigitChars 10 s 0) else none

/-- The number that a numeral stands for, `none` if the text is not a numeral. -/
def numeral? : List Char → Option Nat
  | '+' :: s => digitRun? s
  | s => digitRun? s

/-- The number that a numeral below `bound` stands for. -/
def bounded? (bound : Nat) (s : List Char) : Option Nat :=
  (numeral? s).filter (· < bound)

/-- A numeral below `2 ^ 32`. -/
def uint32? (s : List Char) : Option UInt32 := (bounded? UInt32.size s).map UInt32.ofNat

/-- The decimal digits of a number, without leading zeros. -/
def digits (n : Nat) : List Char := Nat.toDigits 10 n

theorem isDigit_of_mem_digits {n : Nat} {c : Char} (h : c ∈ digits n) : c.isDigit = true :=
  Nat.isDigit_of_mem_toDigits (by decide) (by decide) h

theorem digits_ne_nil (n : Nat) : digits n ≠ [] := Nat.toDigits_ne_nil

theorem digitRun?_digits (n : Nat) : digitRun? (digits n) = some n := by
  have h : digits n ≠ [] ∧ (digits n).all Char.isDigit = true :=
    ⟨digits_ne_nil n, List.all_eq_true.2 fun _ => isDigit_of_mem_digits⟩
  rw [digitRun?, if_pos h, digits, Nat.ofDigitChars_ten_toDigits]

/-- Reading the digits of a number gives the number. -/
theorem numeral?_digits (n : Nat) : numeral? (digits n) = some n := by
  unfold numeral?
  split
  · rename_i s h
    have : '+'.isDigit = true := isDigit_of_mem_digits (n := n) (h ▸ List.mem_cons_self)
    exact absurd this (by decide)
  · exact digitRun?_digits n

/-- Every 32-bit number reads back from its digits. -/
theorem uint32?_digits (n : UInt32) : uint32? (digits n.toNat) = some n := by
  simp [uint32?, bounded?, numeral?_digits, Option.filter, UInt32.toNat_lt_size]

end CouplingMap.Text
