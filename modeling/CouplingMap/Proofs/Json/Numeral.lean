import CouplingMap.Json.Numeral
import CouplingMap.Proofs.Json.Reader
import Mathlib.Data.List.Basic

/-!
# Number texts

The text of the parts of a number is read back as these parts, whatever follows it, as long as this
cannot belong to the number.

* `Numeral.chars`, `Numeral.WellFormed`: the text of parts, and parts that have one.
* `Numeral.scan_chars`: the parts are read back.
* `Numeral.number_natural`: integers are the values of their digits.
-/

namespace CouplingMap.Json

-- Powers of naturals are those of the core library wherever this is imported.
attribute [local instance (high)] instPowNat

/-! ## Runs of digits -/

/-- One or more digits. -/
def IsRun (ds : List Char) : Prop := ds ≠ [] ∧ ∀ c ∈ ds, c.isDigit = true

theorem isRun_digits (n : Nat) : IsRun (Text.digits n) :=
  ⟨Text.digits_ne_nil n, fun _ => Text.isDigit_of_mem_digits⟩

/-- The digits of a positive number do not start with a zero. -/
theorem head?_digits {n : Nat} (h : 0 < n) : (Text.digits n).head? ≠ some '0' := by
  rw [Text.digits]
  induction n using Nat.base_induction 10 (by decide) with
  | single m hm =>
    rw [Nat.toDigits_of_lt_base hm, List.head?_cons]
    have hall : ∀ m < 10, 0 < m → some (Nat.digitChar m) ≠ some '0' := by decide
    exact hall m hm h
  | digit m k hk hm ih =>
    rw [← Nat.toDigits_append_toDigits (by decide) hm hk,
      List.head?_append_of_ne_nil _ Nat.toDigits_ne_nil]
    exact ih hm

namespace Numeral

variable {early : ReadError} {ds rest : List Char} {t : Numeral}

/-- A text that cannot go on with a number. -/
def Ends (rest : List Char) : Prop :=
  ∀ c ∈ rest.head?, c.isDigit = false ∧ c ≠ '.' ∧ c ≠ 'e' ∧ c ≠ 'E'

theorem Ends.nil : Ends [] := by simp [Ends]

theorem scanDigits_append (h : IsRun ds) (hrest : ∀ c ∈ rest.head?, c.isDigit = false) :
    scanDigits early (ds ++ rest) = .ok (ds, rest) := by
  obtain ⟨hne, hall⟩ := h
  have hstop : rest.takeWhile Char.isDigit = [] ∧ rest.dropWhile Char.isDigit = rest := by
    cases rest with
    | nil => exact ⟨rfl, rfl⟩
    | cons c rest =>
      have hc := Bool.eq_false_iff.1 (hrest c rfl)
      exact ⟨List.takeWhile_cons_of_neg hc, List.dropWhile_cons_of_neg hc⟩
  have htake : (ds ++ rest).takeWhile Char.isDigit = ds ++ rest.takeWhile Char.isDigit :=
    List.takeWhile_append_of_pos hall
  have hdrop : (ds ++ rest).dropWhile Char.isDigit = rest.dropWhile Char.isDigit :=
    List.dropWhile_append_of_pos hall
  obtain ⟨d, ds, rfl⟩ := List.exists_cons_of_ne_nil hne
  rw [hstop.1, List.append_nil] at htake
  rw [hstop.2] at hdrop
  rw [List.cons_append] at htake hdrop ⊢
  simp only [scanDigits, hall d List.mem_cons_self, if_true, htake, hdrop]

/-! ## Texts of parts -/

/-- The text of an exponent. -/
def exponentChars : Option (Bool × List Char) → List Char
  | none => []
  | some (negative, ds) => 'e' :: (if negative then '-' else '+') :: ds

/-- The text of a fraction. -/
def fractionChars (ds : List Char) : List Char := if ds = [] then [] else '.' :: ds

/-- The text of the parts of a number. -/
def chars (t : Numeral) : List Char :=
  (if t.negative then ['-'] else []) ++
    (t.whole ++ (fractionChars t.fraction ++ exponentChars t.exponent))

/-- Parts that are runs of digits, the first one without a leading zero. -/
structure WellFormed (t : Numeral) : Prop where
  whole : IsRun t.whole
  plain : t.whole.head? = some '0' → t.whole = ['0']
  fraction : ∀ c ∈ t.fraction, c.isDigit = true
  exponent : ∀ e ∈ t.exponent, IsRun e.2

theorem scanWhole_append (h : IsRun ds) (hplain : ds.head? = some '0' → ds = ['0'])
    (hrest : ∀ c ∈ rest.head?, c.isDigit = false) :
    scanWhole early (ds ++ rest) = .ok (ds, rest) := by
  refine bind_eq_ok.2 ⟨_, scanDigits_append h hrest, if_neg ?_⟩
  rintro ⟨hzero, hlong⟩
  rw [hplain hzero] at hlong
  exact Nat.lt_irrefl 1 hlong

theorem scanFraction_append (h : ∀ c ∈ ds, c.isDigit = true)
    (hrest : ∀ c ∈ rest.head?, c.isDigit = false ∧ c ≠ '.') :
    scanFraction early (fractionChars ds ++ rest) = .ok (ds, rest) := by
  unfold fractionChars
  split
  · subst ds
    rw [List.nil_append]
    unfold scanFraction
    split
    · exact absurd rfl (hrest '.' rfl).2
    · rfl
  · rename_i hne
    exact scanDigits_append ⟨hne, h⟩ fun c hc => (hrest c hc).1

theorem scanExponent_append {e : Option (Bool × List Char)} (h : ∀ p ∈ e, IsRun p.2)
    (hrest : Ends rest) : scanExponent early (exponentChars e ++ rest) = .ok (e, rest) := by
  have hdigit : ∀ c ∈ rest.head?, c.isDigit = false := fun c hc => (hrest c hc).1
  cases e with
  | none =>
    cases rest with
    | nil => rfl
    | cons c rest =>
      obtain ⟨-, -, he, hE⟩ := hrest c rfl
      exact if_neg (not_or.2 ⟨he, hE⟩)
  | some p =>
    obtain ⟨negative, ds⟩ := p
    have hscan : scanDigits early (ds ++ rest) = .ok (ds, rest) :=
      scanDigits_append (h _ rfl) hdigit
    cases negative <;> exact congrArg (Except.map _) hscan

/-- An exponent starts with its letter. -/
theorem head?_exponentChars {e : Option (Bool × List Char)} (hrest : Ends rest) :
    ∀ c ∈ (exponentChars e ++ rest).head?, c.isDigit = false ∧ c ≠ '.' := by
  cases e with
  | none => exact fun c hc => ⟨(hrest c hc).1, (hrest c hc).2.1⟩
  | some p =>
    rintro c ⟨⟩
    decide

theorem head?_fractionChars (ds : List Char) (hrest : ∀ c ∈ rest.head?, c.isDigit = false) :
    ∀ c ∈ (fractionChars ds ++ rest).head?, c.isDigit = false := by
  unfold fractionChars
  split
  · exact hrest
  · rintro c ⟨⟩
    decide

/-- The sign and the digits before the point are read first. -/
theorem scan_append (negative : Bool) (h : IsRun ds) (hplain : ds.head? = some '0' → ds = ['0'])
    (hrest : ∀ c ∈ rest.head?, c.isDigit = false) :
    scan early ((if negative then ['-'] else []) ++ (ds ++ rest)) = (do
      let (fraction, cs) ← scanFraction early rest
      let (exponent, cs) ← scanExponent early cs
      .ok (⟨negative, ds, fraction, exponent⟩, cs)) := by
  have hwhole : scanWhole early (ds ++ rest) = .ok (ds, rest) := scanWhole_append h hplain hrest
  have hsign : ds.head? ≠ some '-' := fun hc => by
    have hdigit := h.2 '-' (List.mem_of_head? hc)
    contradiction
  cases negative with
  | true => exact congrArg (· >>= _) hwhole
  | false =>
    have hplus : ¬ (ds ++ rest).head? = some '-' := by
      rwa [List.head?_append_of_ne_nil _ h.1]
    unfold scan
    simp only [if_neg Bool.false_ne_true, List.nil_append, hplus, decide_false]
    exact congrArg (· >>= _) hwhole

/-- Parts are read back from their text. -/
theorem scan_chars (h : t.WellFormed) (hrest : Ends rest) :
    scan early (t.chars ++ rest) = .ok (t, rest) := by
  obtain ⟨negative, whole, fraction, exponent⟩ := t
  have hhead := head?_exponentChars (e := exponent) hrest
  have hexponent : scanExponent early (exponentChars exponent ++ rest) = .ok (exponent, rest) :=
    scanExponent_append h.exponent hrest
  have hfraction : scanFraction early (fractionChars fraction ++ (exponentChars exponent ++ rest)) =
      .ok (fraction, exponentChars exponent ++ rest) := scanFraction_append h.fraction hhead
  simp only [chars, List.append_assoc]
  rw [scan_append negative h.whole h.plain
    (head?_fractionChars fraction fun c hc => (hhead c hc).1)]
  exact bind_eq_ok.2 ⟨_, hfraction, bind_eq_ok.2 ⟨_, hexponent, rfl⟩⟩

/-- No number starts with a character that starts none. -/
theorem ne_of_starts {c d : Char} (h : starts c = true) (hd : starts d = false) : c ≠ d := by
  rintro rfl
  exact Bool.false_ne_true (hd.symm.trans h)

theorem isSpace_of_starts {c : Char} (h : starts c = true) : isSpace c = false := by
  have hne {d : Char} (hd : starts d = false) : c ≠ d := ne_of_starts h hd
  simp only [isSpace, Bool.or_eq_false_iff, decide_eq_false_iff_not]
  exact ⟨⟨⟨hne (by decide), hne (by decide)⟩, hne (by decide)⟩, hne (by decide)⟩

/-- The text of parts starts like a number. -/
theorem starts_chars (h : t.WellFormed) : ∃ c cs, t.chars = c :: cs ∧ starts c = true := by
  obtain ⟨⟨hne, hall⟩, -, -, -⟩ := h
  obtain ⟨d, ds, hwhole⟩ := List.exists_cons_of_ne_nil hne
  rw [chars, hwhole]
  cases t.negative with
  | true => exact ⟨_, _, rfl, rfl⟩
  | false =>
    refine ⟨_, _, rfl, ?_⟩
    rw [starts, hall d (hwhole ▸ List.mem_cons_self), Bool.or_true]

/-- What is read from the text of parts is their value. -/
theorem read_chars (h : t.WellFormed) (hrest : Ends rest) :
    read (t.chars ++ rest) = t.number.map fun n => (n, rest) := by
  have hread : read (t.chars ++ rest) = t.number >>= fun n => .ok (n, rest) :=
    congrArg (· >>= _) (scan_chars h hrest)
  rw [hread]
  cases t.number <;> rfl

/-! ## Integers -/

/-- More digits do not make a number smaller. -/
theorem le_ofDigitChars (ds : List Char) (n : Nat) : n ≤ Nat.ofDigitChars 10 ds n := by
  rw [Nat.ofDigitChars_eq_ofDigitChars_zero]
  exact Nat.le_add_right_of_le
    (Nat.le_mul_of_pos_left n (Nat.pow_pos (show 0 < 10 by decide)))

/-- Digits are gathered as long as their number fits 64 bits. -/
theorem gather_eq {n : Nat} (h : Nat.ofDigitChars 10 ds n < UInt64.size) :
    gather n ds = (Nat.ofDigitChars 10 ds n, []) := by
  induction ds generalizing n with
  | nil => simp [gather]
  | cons c ds ih =>
    have hsplit : Nat.ofDigitChars 10 (c :: ds) n =
        Nat.ofDigitChars 10 ds (Nat.ofDigitChars 10 [c] n) := Nat.ofDigitChars_append (l := [c]) n
    have hle := le_ofDigitChars ds (Nat.ofDigitChars 10 [c] n)
    rw [hsplit] at h ⊢
    rw [gather, if_pos (Nat.lt_of_le_of_lt hle h), ih h]

theorem wellFormed_natural (n : Nat) : WellFormed ⟨false, Text.digits n, [], none⟩ where
  whole := isRun_digits n
  plain h := by
    cases n with
    | zero => exact Nat.toDigits_zero 10
    | succ n => exact absurd h (head?_digits (Nat.succ_pos n))
  fraction := by simp
  exponent := nofun

theorem chars_natural (n : Nat) : chars ⟨false, Text.digits n, [], none⟩ = Text.digits n := by
  simp [chars, fractionChars, exponentChars]

/-- Digits of up to 64 bits are an integer. -/
theorem number_whole (h : Nat.ofDigitChars 10 ds 0 < UInt64.size) :
    number ⟨false, ds, [], none⟩ = .ok (.integer (Nat.ofDigitChars 10 ds 0)) := by
  simp [number, gather_eq h]

/-- An integer that fits 64 bits is the value of its digits. -/
theorem number_natural {n : Nat} (h : n < UInt64.size) :
    number ⟨false, Text.digits n, [], none⟩ = .ok (.integer n) := by
  have hvalue : Nat.ofDigitChars 10 (Text.digits n) 0 = n := Nat.ofDigitChars_ten_toDigits
  rw [number_whole (hvalue.symm ▸ h), hvalue]

end Numeral

end CouplingMap.Json
