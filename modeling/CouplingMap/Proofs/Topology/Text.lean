import CouplingMap.Proofs.Text.Parts
import CouplingMap.Topology.Text

/-!
# Texts of topologies

* `Topology.Family`: the kinds in lower case, and the numbers of sizes that they take.
* `Topology.Spells`: the texts that are read, and the topologies that they spell.
* `Topology.parse_eq_ok_iff`, `Topology.parse_display`, `Topology.spelling_exact`: reading gives
  what is spelled, other texts are refused as they are, and what was read can be written and read
  again.
-/

namespace CouplingMap.Topology

open Text

variable {s kind : List Char} {word : String} {sizes : List UInt32} {t : Topology}

/-! ## What is read -/

/-- The topology of a kind in lower case and some sizes. A grid has one layer if none are given. -/
inductive Family : String → List UInt32 → Topology → Prop
  | full {word : String} {n : UInt32} (h : word ∈ ["full", "fc", "fully_connected"]) :
    Family word [n] (full n)
  | ring {n : UInt32} : Family "ring" [n] (ring n)
  | flat {r c : UInt32} : Family "grid" [r, c] (grid r c 1)
  | layered {r c l : UInt32} : Family "grid" [r, c, l] (grid r c l)

/-- A text spells a topology: a kind in any case before the first colon, and sizes with `x` between
them after it. Blanks around each size do not count, but those around the kind do. -/
inductive Spells : List Char → Topology → Prop
  | parts {kind : List Char} {ps : List (List Char)} {sizes : List UInt32} {t : Topology}
      (hkind : ':' ∉ kind) (hps : List.Forall₂ (fun p i => IsNumeral (trim p) i) ps sizes)
      (h : Family (String.ofList (lower kind)) sizes t) :
      Spells (kind ++ ':' :: join ['x'] ps) t

theorem ofKind?_eq_some_iff : ofKind? word sizes = some t ↔ Family word sizes t := by
  constructor
  · intro h
    unfold ofKind? at h
    split at h
    · split at h
      · obtain rfl := Option.some.inj h
        exact .full (by simpa)
      · contradiction
    split at h
    · rename_i hword
      split at h
      · obtain rfl := Option.some.inj h
        exact hword ▸ .ring
      · contradiction
    split at h
    · rename_i hword
      split at h
      · obtain rfl := Option.some.inj h
        exact hword ▸ .flat
      · obtain rfl := Option.some.inj h
        exact hword ▸ .layered
      · contradiction
    · contradiction
  · rintro (h | _ | _ | _)
    · exact if_pos (by simpa using h)
    all_goals rfl

/-- A family takes a size at least. -/
theorem Family.sizes_ne_nil (h : Family word sizes t) : sizes ≠ [] := by
  cases h <;> simp

theorem sizes?_eq_some_iff : sizes? s = some sizes ↔ ∃ ps, s = join ['x'] ps ∧ ps ≠ [] ∧
    List.Forall₂ (fun p i => IsNumeral (trim p) i) ps sizes :=
  mapM_pieces_eq_some_iff (by decide) (by decide) (by decide)

theorem parseChars?_eq_some_iff : parseChars? s = some t ↔ Spells (trim s) t := by
  simp only [parseChars?, Option.bind_eq_bind, Option.bind_eq_some_iff, Prod.exists,
    cut?_eq_some_iff, sizes?_eq_some_iff, ofKind?_eq_some_iff]
  constructor
  · rintro ⟨kind, _, ⟨hs, hkind⟩, sizes, ⟨ps, rfl, -, hps⟩, h⟩
    exact hs ▸ .parts hkind hps h
  · generalize trim s = s
    rintro @⟨kind, ps, sizes, t, hkind, hps, h⟩
    have hne : ps ≠ [] := by
      rintro rfl
      cases hps
      exact h.sizes_ne_nil rfl
    exact ⟨kind, _, ⟨rfl, hkind⟩, sizes, ⟨ps, rfl, hne, hps⟩, h⟩

/-- Reading gives the topology that the trimmed text spells, and fails if it spells none. -/
theorem parse_eq_ok_iff (s : String) (t : Topology) :
    parse s = .ok t ↔ Spells (trim s.toList) t := by
  rw [← parseChars?_eq_some_iff, parse]
  split <;> simp_all

/-- A text that spells no topology is refused as it stands. -/
theorem parse_eq_error_iff (s : String) :
    parse s = .error (.unreadable s) ↔ ∀ t, ¬ Spells (trim s.toList) t := by
  simp only [← parseChars?_eq_some_iff, parse]
  split <;> simp_all

/-! ## What is written -/

theorem displayChars_grid (r c l : UInt32) : (grid r c l).displayChars =
    "grid:".toList ++ digits r.toNat ++ 'x' :: digits c.toNat ++ 'x' :: digits l.toNat := rfl

/-- A text that starts with a letter and ends with digits has no blanks at its ends. -/
theorem trimmed_digits_end {c : Char} (hc : isBlank c = false) (s : List Char) (k : Nat) :
    Trimmed (c :: s ++ digits k) := by
  refine ⟨by simpa using hc, fun b hb => (trimmed_digits k).last b ?_⟩
  rwa [List.getLast?_append_of_ne_nil _ (digits_ne_nil k)] at hb

/-- The text of a topology spells it. -/
theorem spells_display (t : Topology) : Spells t.displayChars t := by
  have hsize (n : UInt32) : IsNumeral (trim (digits n.toNat)) n :=
    (trimmed_digits n.toNat).trim_eq.symm ▸ isNumeral_digits n
  cases t with
  | full n =>
    change Spells ("full".toList ++ ':' :: join ['x'] [digits n.toNat]) (full n)
    exact .parts (by decide) (.cons (hsize n) .nil) (.full (by decide))
  | ring n =>
    change Spells ("ring".toList ++ ':' :: join ['x'] [digits n.toNat]) (ring n)
    exact .parts (by decide) (.cons (hsize n) .nil) .ring
  | grid r c l =>
    have hkind : "grid:".toList = "grid".toList ++ [':'] := by decide
    have h : Spells ("grid".toList ++ ':' :: join ['x'] [digits r.toNat, digits c.toNat,
        digits l.toNat]) (grid r c l) :=
      .parts (by decide) (.cons (hsize r) (.cons (hsize c) (.cons (hsize l) .nil))) .layered
    simp only [join, List.append_assoc, List.singleton_append] at h
    simpa only [displayChars_grid, hkind, List.append_assoc, List.cons_append, List.nil_append]
      using h

/-- The text of a topology is read back. -/
theorem parse_display (t : Topology) : parse t.display = .ok t := by
  have htrimmed : Trimmed t.displayChars := by
    cases t with
    | full n => exact trimmed_digits_end (by decide) "ull:".toList n.toNat
    | ring n => exact trimmed_digits_end (by decide) "ing:".toList n.toNat
    | grid r c l =>
      have hkind : "grid:".toList = 'g' :: "rid:".toList := by decide
      have h := trimmed_digits_end (c := 'g') (by decide)
        ("rid:".toList ++ digits r.toNat ++ 'x' :: digits c.toNat ++ ['x']) l.toNat
      simpa only [displayChars_grid, hkind, List.append_assoc, List.cons_append, List.nil_append]
        using h
  rw [parse_eq_ok_iff, display, String.toList_ofList, htrimmed.trim_eq]
  exact t.spells_display

/-! ## Kinds -/

/-- Kinds are ASCII texts without the letter that is also the small letter of the Kelvin sign. -/
theorem Family.ascii (h : Family word sizes t) : ∀ c ∈ word.toList, c.toNat < 128 ∧ c ≠ 'k' := by
  cases h with
  | full h =>
    simp only [List.mem_cons, List.not_mem_nil, or_false] at h
    rcases h with rfl | rfl | rfl <;> simp
  | ring => simp
  | flat => simp
  | layered => simp

/-- Kinds are spelled with ASCII letters only, whatever their case. -/
theorem family_lower_iff : Family (String.ofList (lower kind)) sizes t ↔
    Family (String.ofList (kind.map Char.toLower)) sizes t := by
  constructor
  · intro h
    have hascii := h.ascii
    rw [String.toList_ofList] at hascii
    rwa [(lower_eq_iff hascii).1 rfl]
  · intro h
    have hascii := h.ascii
    rw [String.toList_ofList] at hascii
    rwa [(lower_eq_iff hascii).2 rfl]

/-- The text of a topology is read back. A text is read as the topology that it spells once it is
trimmed, and it is refused as it stands if it spells none. What was read can be written and read
again. A kind is spelled with ASCII letters of either case, and with no other characters that have
them as small letters. -/
theorem spelling_exact :
    (∀ t : Topology, parse t.display = .ok t) ∧
    (∀ s t, parse s = .ok t ↔ Spells (trim s.toList) t) ∧
    (∀ s, parse s = .error (.unreadable s) ↔ ∀ t, ¬ Spells (trim s.toList) t) ∧
    (∀ s t, parse s = .ok t → parse t.display = parse s) ∧
    ∀ kind sizes t, Family (String.ofList (lower kind)) sizes t ↔
      Family (String.ofList (kind.map Char.toLower)) sizes t :=
  ⟨parse_display, parse_eq_ok_iff, parse_eq_error_iff,
    fun _ t h => (parse_display t).trans h.symm, fun _ _ _ => family_lower_iff⟩

example : parse " Grid: +2 x 03 " = .ok (.grid 2 3 1) := by rfl

end CouplingMap.Topology
