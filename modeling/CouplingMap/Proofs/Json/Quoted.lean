import CouplingMap.Json.Quoted
import CouplingMap.Proofs.Json.Reader

/-!
# Strings are read back

* `charsFrom_writeChar`: the written form of a character is read in one round.
* `Quoted.read_write`: a string is read back from its written form, whatever follows it.
-/

namespace CouplingMap.Json.Quoted

variable {c : Char} {cs done rest bound : List Char} {b : Char}

/-- The escape of a control character is read as its code. -/
theorem hexQuad?_control :
    ∀ n < 0x20, hexQuad? '0' '0' (hexDigit (n / 16)) (hexDigit (n % 16)) = some n := by
  decide

theorem escape_control (h : isControl c = true) :
    escape ('u' :: '0' :: '0' :: hexDigit (c.toNat / 16) :: hexDigit (c.toNat % 16) :: cs) =
      .ok (c, cs) := by
  have hsmall : c.toNat < 0x20 := of_decide_eq_true h
  have hunit : hexUnit ('0' :: '0' :: hexDigit (c.toNat / 16) :: hexDigit (c.toNat % 16) :: cs) =
      .ok (c.toNat, cs) := by
    rw [hexUnit, hexQuad?_control c.toNat hsmall]
  have hlow : isLowSurrogate c.toNat = false := by
    rw [isLowSurrogate, decide_eq_false (by omega), Bool.false_and]
  have hhigh : isHighSurrogate c.toNat = false := by
    rw [isHighSurrogate, decide_eq_false (by omega), Bool.false_and]
  refine bind_eq_ok.2 ⟨_, hunit, ?_⟩
  simp only [hlow, hhigh, Bool.false_eq_true, if_false, Char.ofNat_toNat]

/-- The written form of a character is read in one round. -/
theorem charsFrom_writeChar :
    charsFrom escape (b :: bound) done (writeChar c ++ cs) =
      charsFrom escape bound (c :: done) cs := by
  unfold writeChar
  split
  -- The seven characters with an escape of one letter.
  iterate 7 rfl
  rename_i hquote hbackslash _ _ _ _ _
  split
  · rename_i hcontrol
    exact congrArg (· >>= _) (escape_control hcontrol)
  · rename_i hplain
    rw [List.singleton_append, charsFrom, if_neg hquote, if_neg hbackslash, if_neg hplain]

/-- The written form of characters is read in as many rounds. -/
theorem charsFrom_write {s : List Char} (h : s.length < bound.length) :
    charsFrom escape bound done (s.flatMap writeChar ++ '"' :: rest) =
      .ok (done.reverse ++ s, rest) := by
  induction s generalizing bound done with
  | nil =>
    obtain ⟨b, bound, rfl⟩ := List.exists_cons_of_length_pos h
    rw [List.append_nil]
    rfl
  | cons c s ih =>
    obtain ⟨b, bound, rfl⟩ := List.exists_cons_of_length_pos (Nat.zero_lt_of_lt h)
    rw [List.flatMap_cons, List.append_assoc, charsFrom_writeChar,
      ih (Nat.lt_of_succ_lt_succ h), List.reverse_cons, List.append_assoc, List.singleton_append]

theorem length_pos_writeChar (c : Char) : 0 < (writeChar c).length := by
  unfold writeChar
  split
  iterate 7 exact Nat.succ_pos _
  split <;> exact Nat.succ_pos _

theorem length_le_flatMap_writeChar (s : List Char) : s.length ≤ (s.flatMap writeChar).length := by
  induction s with
  | nil => exact Nat.le_refl 0
  | cons c s ih =>
    have := length_pos_writeChar c
    rw [List.flatMap_cons, List.length_append, List.length_cons]
    omega

/-- The written form of a string, in front of a text. -/
theorem write_append (s : String) (rest : List Char) :
    write s ++ rest = '"' :: (s.toList.flatMap writeChar ++ '"' :: rest) := by
  rw [write, List.append_assoc, List.cons_append, List.singleton_append]

/-- A string is read back after its opening quote. -/
theorem read_write (s : String) (rest : List Char) :
    read (s.toList.flatMap writeChar ++ '"' :: rest) = .ok (s, rest) := by
  refine bind_eq_ok.2 ⟨_, charsFrom_write ?_, ?_⟩
  · have := length_le_flatMap_writeChar s.toList
    rw [List.length_append, List.length_cons]
    omega
  · exact congrArg (fun s => Except.ok (s, rest)) String.ofList_toList

end CouplingMap.Json.Quoted
