import CouplingMap.Yaml.Kind
import Mathlib.Data.List.Induction

/-!
# What scalars spell

* `Numeral`: the numerals of a number in a base; `inBase?_eq_some_iff`.
* `SpellsNatural`: the texts of a natural number; `unsigned?_eq_some_iff`.
* `SpellsTruth`: the texts of a truth value; `truth?_eq_some_iff`.
* `Scalar.MayBe`: the scalars that can be of a kind other than text; `Scalar.canBe_iff`.
-/

namespace CouplingMap.Yaml

/-! ## Digits -/

/-- The digits up to sixteen, with small and with capital letters. -/
def digitsInOrder : List (Char × Char) :=
  [('0', '0'), ('1', '1'), ('2', '2'), ('3', '3'), ('4', '4'), ('5', '5'), ('6', '6'), ('7', '7'),
    ('8', '8'), ('9', '9'), ('a', 'A'), ('b', 'B'), ('c', 'C'), ('d', 'D'), ('e', 'E'), ('f', 'F')]

/-- A character is a digit. -/
def IsDigit (c : Char) (v : Nat) : Prop := ∃ p, digitsInOrder[v]? = some p ∧ (c = p.1 ∨ c = p.2)

theorem hexValue?_of_mem : ∀ v < 16, ∀ p ∈ digitsInOrder[v]?,
    Text.hexValue? p.1 = some v ∧ Text.hexValue? p.2 = some v := by decide

theorem isDigit_of_hexValue? : ∀ n < 103, ∀ v ∈ Text.hexValue? (Char.ofNat n),
    (digitsInOrder[v]?.any fun p => Char.ofNat n = p.1 || Char.ofNat n = p.2) = true := by decide

/-- The values of characters as digits. -/
theorem hexValue?_eq_some_iff {c : Char} {v : Nat} : Text.hexValue? c = some v ↔ IsDigit c v := by
  constructor
  · intro h
    have hc : c.toNat < 103 := by
      by_contra hle
      have hlt (a : Char) (ha : a.toNat < 103) : ¬ c ≤ a := fun hca =>
        absurd (UInt32.le_iff_toNat_le.1 hca) (by simp only [← Char.toNat_val] at *; omega)
      have hdigit : ¬ c.isDigit = true := fun hd =>
        hlt '9' (by decide) (of_decide_eq_true (Bool.and_eq_true_iff.1 hd).2)
      rw [Text.hexValue?, if_neg hdigit, if_neg fun hc => hlt 'f' (by decide) hc.2,
        if_neg fun hc => hlt 'F' (by decide) hc.2] at h
      contradiction
    have hdigit := isDigit_of_hexValue? c.toNat hc v (by rwa [Char.ofNat_toNat])
    rw [Char.ofNat_toNat] at hdigit
    simpa [IsDigit, Option.any_eq_true] using hdigit
  · rintro ⟨p, hp, hc⟩
    have hv : v < 16 := (List.getElem?_eq_some_iff.1 hp).1
    obtain ⟨hsmall, hcapital⟩ := hexValue?_of_mem v hv p hp
    rcases hc with rfl | rfl
    · exact hsmall
    · exact hcapital

/-! ## Numbers -/

/-- The numerals of a number in a base. -/
inductive Numeral (base : Nat) : List Char → Nat → Prop where
  | single {c : Char} {v : Nat} (h : IsDigit c v) (hv : v < base) : Numeral base [c] v
  | snoc {s : List Char} {n v : Nat} {c : Char} (hs : Numeral base s n) (h : IsDigit c v)
    (hv : v < base) : Numeral base (s ++ [c]) (n * base + v)

variable {base n v : Nat} {c : Char} {s : List Char}

theorem baseDigit?_eq_some_iff : baseDigit? base c = some v ↔ IsDigit c v ∧ v < base := by
  rw [baseDigit?, Option.filter_eq_some_iff, hexValue?_eq_some_iff, decide_eq_true_eq]

theorem Numeral.ne_nil (h : Numeral base s n) : s ≠ [] := by
  cases h <;> simp

/-- The characters of a numeral are digits. -/
theorem Numeral.isDigit (h : Numeral base s n) : ∀ c ∈ s, ∃ v < base, IsDigit c v := by
  induction h with
  | single h hv => simpa using ⟨_, hv, h⟩
  | snoc _ h hv ih =>
    intro c hc
    obtain hc | rfl : c ∈ _ ∨ c = _ := by simpa using hc
    · exact ih c hc
    · exact ⟨_, hv, h⟩

/-- A numeral is a digit, or a numeral with a digit after it. -/
theorem numeral_append_singleton : Numeral base (s ++ [c]) n ↔
    s = [] ∧ IsDigit c n ∧ n < base ∨
      ∃ m v, Numeral base s m ∧ IsDigit c v ∧ v < base ∧ n = m * base + v := by
  constructor
  · intro h
    generalize ht : s ++ [c] = t at h
    cases h with
    | single h hv =>
      obtain ⟨rfl, rfl⟩ : s = [] ∧ c = _ := by simpa [List.append_eq_singleton_iff] using ht
      exact .inl ⟨rfl, h, hv⟩
    | snoc hs h hv =>
      obtain ⟨rfl, rfl⟩ := List.append_singleton_inj.1 ht
      exact .inr ⟨_, _, hs, h, hv, rfl⟩
  · rintro (⟨rfl, h, hv⟩ | ⟨m, v, hs, h, hv, rfl⟩)
    · exact .single h hv
    · exact .snoc hs h hv

/-- A run of digits is read as the number that it is a numeral of. -/
theorem inBase?_eq_some_iff : inBase? base s = some n ↔ Numeral base s n := by
  induction s using List.reverseRecOn generalizing n with
  | nil => exact ⟨nofun, fun h => absurd rfl h.ne_nil⟩
  | append_singleton s c ih =>
    have hlast : inBase? base (s ++ [c]) =
        (s.foldlM (fun n c => (baseDigit? base c).map fun v => n * base + v) 0).bind fun m =>
          (baseDigit? base c).map fun v => m * base + v := by
      rw [inBase?, if_neg (by simp), List.foldlM_append]
      exact bind_congr fun m => bind_pure _
    rw [hlast, numeral_append_singleton]
    by_cases hs : s = []
    · subst hs
      have hempty (m : Nat) : ¬ Numeral base [] m := fun h => h.ne_nil rfl
      simp [baseDigit?_eq_some_iff, hempty]
    · have hinit : s.foldlM (fun n c => (baseDigit? base c).map fun v => n * base + v) 0 =
          inBase? base s := (if_neg hs).symm
      simp only [hinit, Option.bind_eq_some_iff, ih, Option.map_eq_some_iff,
        baseDigit?_eq_some_iff, hs, false_and, false_or]
      constructor
      · rintro ⟨m, hm, v, ⟨hc, hv⟩, rfl⟩
        exact ⟨m, v, hm, hc, hv, rfl⟩
      · rintro ⟨m, v, hm, hc, hv, rfl⟩
        exact ⟨m, hm, v, ⟨hc, hv⟩, rfl⟩

/-- The texts of a number without a sign: in base ten without zeros before it, or in another base
after a mark. -/
inductive Magnitude : List Char → Nat → Prop where
  | hexadecimal {s : List Char} {n : Nat} (h : Numeral 16 s n) : Magnitude ('0' :: 'x' :: s) n
  | octal {s : List Char} {n : Nat} (h : Numeral 8 s n) : Magnitude ('0' :: 'o' :: s) n
  | binary {s : List Char} {n : Nat} (h : Numeral 2 s n) : Magnitude ('0' :: 'b' :: s) n
  | zero : Magnitude ['0'] 0
  | decimal {s : List Char} {n : Nat} (h : Numeral 10 s n) (hzero : s.head? ≠ some '0') :
    Magnitude s n

/-- The texts of a natural number, which may have a plus sign. -/
def SpellsNatural (s : List Char) (n : Nat) : Prop :=
  Magnitude s n ∨ ∃ t, s = '+' :: t ∧ Magnitude t n

/-- What follows a leading zero says which base it marks. -/
theorem Magnitude.of_zero_cons (h : Magnitude ('0' :: c :: s) n) :
    c = 'x' ∧ Numeral 16 s n ∨ c = 'o' ∧ Numeral 8 s n ∨ c = 'b' ∧ Numeral 2 s n := by
  cases h with
  | hexadecimal h => exact .inl ⟨rfl, h⟩
  | octal h => exact .inr (.inl ⟨rfl, h⟩)
  | binary h => exact .inr (.inr ⟨rfl, h⟩)
  | decimal _ hzero => exact absurd rfl hzero

theorem magnitude?_eq_some_iff : magnitude? s = some n ↔ Magnitude s n := by
  unfold magnitude?
  split
  · rw [inBase?_eq_some_iff]
    exact ⟨.hexadecimal, fun h => by simpa using h.of_zero_cons⟩
  · rw [inBase?_eq_some_iff]
    exact ⟨.octal, fun h => by simpa using h.of_zero_cons⟩
  · rw [inBase?_eq_some_iff]
    exact ⟨.binary, fun h => by simpa using h.of_zero_cons⟩
  · rename_i hx ho hb
    refine ⟨nofun, fun h => ?_⟩
    obtain ⟨rfl, -⟩ | ⟨rfl, -⟩ | ⟨rfl, -⟩ := h.of_zero_cons
    · exact absurd rfl hx
    · exact absurd rfl ho
    · exact absurd rfl hb
  · rename_i hx ho hb hpadded
    rw [inBase?_eq_some_iff]
    constructor
    · intro h
      by_cases hzero : s.head? = some '0'
      · -- No other character follows a zero here, so it is all there is.
        obtain ⟨t, rfl⟩ := List.head?_eq_some_iff.1 hzero
        obtain _ | ⟨c, t⟩ := t
        · have hone : inBase? 10 ['0'] = some 0 := by decide
          obtain rfl := Option.some.inj (hone.symm.trans (inBase?_eq_some_iff.2 h))
          exact .zero
        · exact absurd rfl (hpadded c t)
      · exact .decimal h hzero
    · rintro (h | h | h | - | ⟨h, -⟩)
      · exact absurd rfl (hx _)
      · exact absurd rfl (ho _)
      · exact absurd rfl (hb _)
      · exact .single ⟨('0', '0'), rfl, .inl rfl⟩ (by decide)
      · exact h

theorem Magnitude.head?_ne_plus (h : Magnitude s n) : s.head? ≠ some '+' := by
  cases h with
  | hexadecimal | octal | binary | zero => simp
  | decimal h =>
    intro hplus
    obtain ⟨v, -, p, hp, hc⟩ := h.isDigit '+' (List.mem_of_mem_head? hplus)
    have hdigit := hexValue?_eq_some_iff.2 ⟨p, hp, hc⟩
    contradiction

/-- A text is read as a natural number just if it spells the number. -/
theorem unsigned?_eq_some_iff : unsigned? s = some n ↔ SpellsNatural s n := by
  unfold unsigned? SpellsNatural
  split
  · rw [magnitude?_eq_some_iff]
    refine ⟨fun h => .inr ⟨_, rfl, h⟩, ?_⟩
    rintro (h | ⟨t, ⟨⟩, h⟩)
    · exact absurd rfl h.head?_ne_plus
    · exact h
  · rename_i hplus
    rw [magnitude?_eq_some_iff]
    refine ⟨.inl, ?_⟩
    rintro (h | ⟨t, rfl, -⟩)
    · exact h
    · exact absurd rfl (hplus t)

/-! ## Truth values -/

/-- The texts of a truth value. -/
inductive SpellsTruth : String → Bool → Prop where
  | true {s : String} (h : s = "true" ∨ s = "True" ∨ s = "TRUE") : SpellsTruth s true
  | false {s : String} (h : s = "false" ∨ s = "False" ∨ s = "FALSE") : SpellsTruth s false

theorem truth?_eq_some_iff {b : Bool} : truth? s = some b ↔ SpellsTruth (String.ofList s) b := by
  unfold truth?
  generalize String.ofList s = t
  constructor
  · intro h
    split at h
    · rename_i ht
      obtain rfl := Option.some.inj h
      exact .true (by simpa using ht)
    · split at h
      · rename_i ht
        obtain rfl := Option.some.inj h
        exact .false (by simpa using ht)
      · contradiction
  · rintro (h | h) <;> rcases h with rfl | rfl | rfl <;> rfl

namespace Scalar

/-- A scalar can be of a kind other than text: it is plain, or a literal block with the tag of this
kind. -/
def MayBe (kind : String) (s : Scalar) : Prop :=
  s.style = .plain ∨ s.style = .literal ∧ s.tag = some ("tag:yaml.org,2002:" ++ kind).toList

theorem canBe_iff {kind : String} {s : Scalar} : s.canBe kind = true ↔ s.MayBe kind := by
  have htag : standardTag kind = ("tag:yaml.org,2002:" ++ kind).toList :=
    String.toList_append.symm
  rw [canBe, MayBe, ← htag, Bool.or_eq_true, Bool.and_eq_true, decide_eq_true_eq,
    decide_eq_true_eq, decide_eq_true_eq]

end Scalar

end CouplingMap.Yaml
