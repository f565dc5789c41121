import CouplingMap.Json.Reader

/-!
# What readers leave

* `bind_eq_ok`, `map_eq_ok`, `mapError_eq_ok`: the steps of a reader that succeeds.
* `Blank`, `Solid`: texts of blanks, which are passed over, and texts that start with something
  else.
-/

namespace CouplingMap

variable {ε α β : Type}

/-- Two steps succeed if the first does, and then the second with what it answers. -/
theorem bind_eq_ok {x : Except ε α} {f : α → Except ε β} {b : β} :
    x >>= f = .ok b ↔ ∃ a, x = .ok a ∧ f a = .ok b := by
  cases x with
  | error e => exact ⟨nofun, nofun⟩
  | ok a => exact ⟨fun h => ⟨a, rfl, h⟩, fun ⟨_, h, hf⟩ => Except.ok.inj h ▸ hf⟩

theorem map_eq_ok {x : Except ε α} {f : α → β} {b : β} :
    x.map f = .ok b ↔ ∃ a, x = .ok a ∧ f a = b := by
  cases x with
  | error e => exact ⟨nofun, nofun⟩
  | ok a =>
    exact ⟨fun h => ⟨a, rfl, Except.ok.inj h⟩, fun ⟨_, h, hf⟩ => congrArg _ (Except.ok.inj h ▸ hf)⟩

theorem mapError_eq_ok {δ : Type} {x : Except ε α} {f : ε → δ} {a : α} :
    x.mapError f = .ok a ↔ x = .ok a := by
  cases x with
  | error e => exact ⟨nofun, nofun⟩
  | ok b => exact ⟨fun h => congrArg _ (Except.ok.inj h), fun h => congrArg _ (Except.ok.inj h)⟩

namespace Json

/-! ## Blanks -/

/-- A text of blanks. -/
def Blank (b : List Char) : Prop := ∀ c ∈ b, isSpace c = true

/-- A text that starts with a character that is not a blank. -/
def Solid (cs : List Char) : Prop := ∃ c rest, cs = c :: rest ∧ isSpace c = false

variable {b cs rest : List Char} {c : Char}

theorem Blank.nil : Blank [] := by simp [Blank]

theorem Blank.append (hb : Blank b) (hcs : Blank cs) : Blank (b ++ cs) :=
  fun c hc => (List.mem_append.1 hc).elim (hb c) (hcs c)

theorem Solid.cons (h : isSpace c = false) : Solid (c :: rest) := ⟨c, rest, rfl, h⟩

theorem Solid.append (h : Solid cs) : Solid (cs ++ rest) := by
  obtain ⟨c, ds, rfl, hc⟩ := h
  exact ⟨c, ds ++ rest, rfl, hc⟩

theorem Solid.length_pos (h : Solid cs) : 0 < cs.length := by
  obtain ⟨c, ds, rfl, -⟩ := h
  exact Nat.succ_pos _

/-- Blanks are passed over. -/
theorem Blank.skipSpace_append (h : Blank b) : skipSpace (b ++ cs) = skipSpace cs := by
  rw [skipSpace, List.dropWhile_append_of_pos h, skipSpace]

/-- Nothing else is passed over. -/
theorem Solid.skipSpace_eq (h : Solid cs) : skipSpace cs = cs := by
  obtain ⟨c, ds, rfl, hc⟩ := h
  exact List.dropWhile_cons_of_neg (Bool.eq_false_iff.1 hc)

/-- Blanks in front of something else are passed over. -/
theorem Blank.skipSpace_solid (h : Blank b) (hs : Solid cs) : skipSpace (b ++ cs) = cs :=
  h.skipSpace_append.trans hs.skipSpace_eq

end Json

end CouplingMap
