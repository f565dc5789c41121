import CouplingMap.Proofs.Json.Form
import CouplingMap.Topology.Json

/-!
# Topologies in JSON are read back

* `Topology.Form`: the values of a topology: an object with its kind and all its sizes among the
  members, or a list of the kind and the sizes.
* `Topology.ofJson_eq_ok_iff`: a value is read as a topology just if it is one of its values.
* `Topology.read_toJson`: what is written is read back.
-/

namespace CouplingMap.Topology

open Json

/-- A size as a value. -/
def sizeValue (n : UInt32) : Json := .number (.integer n.toNat)

/-- The values of a topology. -/
inductive Form : Json → Topology → Prop where
  | object {ms : List (String × Json)} {k : Kind} {ns : List UInt32}
    (hkind : lookup "kind" ms = some (.string k.name))
    (hsizes : List.Forall₂ (fun name n => lookup name ms = some (sizeValue n)) k.sizeNames ns) :
    Form (.object ms) (k.withSizes ns)
  | list {k : Kind} {ns : List UInt32} (hlength : ns.length = k.sizeNames.length) :
    Form (.list (.string k.name :: ns.map sizeValue)) (k.withSizes ns)

variable {v : Json} {vs : List Json} {ms : List (String × Json)} {names : List String}
  {ns : List UInt32} {n : UInt32} {k : Kind} {name : String}

theorem uint32_eq_ok_iff : Decoder.uint32.fromValue v = .ok n ↔ v = sizeValue n :=
  Decoder.accepts_uint32 v n

/-! ## Kinds -/

/-- The name of a kind tells it from the others. -/
theorem kind_ofJson_eq_ok_iff : Kind.ofJson v = .ok k ↔ v = .string k.name := by
  constructor
  · intro h
    cases v with
    | string s =>
      unfold Kind.ofJson at h
      dsimp only at h
      split at h
      · rename_i k' hfind
        obtain rfl := Except.ok.inj h
        have hname := List.find?_some hfind
        rw [beq_iff_eq.1 hname]
      · contradiction
    | _ => contradiction
  · rintro rfl
    cases k <;> rfl

/-! ## Sizes -/

theorem sizeValue_inj {m : UInt32} : sizeValue m = sizeValue n ↔ m = n := by
  rw [sizeValue, sizeValue, number.injEq, Number.integer.injEq, Int.natCast_inj, UInt32.toNat_inj]

/-- A size that is present is read as its number. -/
theorem presentSize_eq_ok_iff {found : Option (String × UInt32)} :
    presentSize ms name = .ok found ↔ lookup name ms = none ∧ found = none ∨
      ∃ n, lookup name ms = some (sizeValue n) ∧ found = some (name, n) := by
  unfold presentSize
  cases lookup name ms with
  | none => simp [eq_comm]
  | some v =>
    simp only [map_eq_ok, uint32_eq_ok_iff, Option.some.injEq, reduceCtorEq, false_and, false_or]
    exact exists_congr fun n => and_congr_right fun _ => eq_comm

/-- What has been read of the sizes. -/
theorem lookup_present {present : List (String × UInt32)}
    (h : names.filterMapM (presentSize ms) = .ok present) :
    present.lookup name = some n ↔ name ∈ names ∧ lookup name ms = some (sizeValue n) := by
  induction names generalizing present with
  | nil =>
    obtain rfl := Except.ok.inj h
    simp
  | cons a names ih =>
    rw [List.filterMapM_cons, bind_eq_ok] at h
    obtain ⟨found, hfound, h⟩ := h
    obtain ⟨hnone, rfl⟩ | ⟨m, hm, rfl⟩ := presentSize_eq_ok_iff.1 hfound
    · by_cases hname : name = a
      · subst hname
        simp [ih h, hnone]
      · simp [ih h, hname]
    · obtain ⟨rest, hrest, h⟩ := bind_eq_ok.1 h
      obtain rfl := Except.ok.inj h
      by_cases hname : name = a
      · subst hname
        simp [hm, sizeValue_inj]
      · have hbeq : (name == a) = false := by simpa using hname
        simp [List.lookup_cons, hbeq, ih hrest, hname]

/-- The sizes are read if they all are numbers. -/
theorem exists_present (h : ∀ name ∈ names, ∃ n, lookup name ms = some (sizeValue n)) :
    ∃ present, names.filterMapM (presentSize ms) = .ok present := by
  induction names with
  | nil => exact ⟨[], rfl⟩
  | cons name names ih =>
    obtain ⟨⟨n, hn⟩, h⟩ := List.forall_mem_cons.1 h
    obtain ⟨present, hpresent⟩ := ih h
    refine ⟨(name, n) :: present, ?_⟩
    rw [List.filterMapM_cons, presentSize_eq_ok_iff.2 (.inr ⟨n, hn, rfl⟩)]
    exact bind_eq_ok.2 ⟨_, rfl, bind_eq_ok.2 ⟨present, hpresent, rfl⟩⟩

theorem mapM_eq_ok_iff {ε α β : Type} {f : α → Except ε β} {xs : List α} {ys : List β} :
    xs.mapM f = .ok ys ↔ List.Forall₂ (fun x y => f x = .ok y) xs ys := by
  induction xs generalizing ys with
  | nil =>
    rw [List.forall₂_nil_left_iff]
    exact ⟨fun h => (Except.ok.inj h).symm, fun h => h ▸ rfl⟩
  | cons x xs ih =>
    simp only [List.mapM_cons, bind_eq_ok, ih, List.forall₂_cons_left_iff]
    constructor
    · rintro ⟨y, hy, ys, hys, ⟨⟩⟩
      exact ⟨y, ys, hy, hys, rfl⟩
    · rintro ⟨y, ys, hy, hys, rfl⟩
      exact ⟨y, hy, ys, hys, rfl⟩

/-- The sizes in order are read just if all are there. -/
theorem sizesOfMembers_eq_ok_iff : sizesOfMembers ms names = .ok ns ↔
    List.Forall₂ (fun name n => lookup name ms = some (sizeValue n)) names ns := by
  rw [sizesOfMembers, bind_eq_ok]
  constructor
  · rintro ⟨present, hpresent, h⟩
    refine (mapM_eq_ok_iff.1 h).imp fun name n hn => ?_
    split at hn
    · rename_i m hm
      exact Except.ok.inj hn ▸ ((lookup_present hpresent).1 hm).2
    · contradiction
  · intro h
    have hall : ∀ name ∈ names, ∃ n, lookup name ms = some (sizeValue n) := by
      induction h with
      | nil => simp
      | cons hn _ ih => exact List.forall_mem_cons.2 ⟨⟨_, hn⟩, ih⟩
    obtain ⟨present, hpresent⟩ := exists_present fun name hname =>
      hall name (List.mem_mergeSort.1 hname)
    refine ⟨present, hpresent, mapM_eq_ok_iff.2 ?_⟩
    have hmem : ∀ name ∈ names, name ∈ names.mergeSort fun a b => a ≤ b :=
      fun name hname => List.mem_mergeSort.2 hname
    refine ((List.forall₂_and_left names ns).2 ⟨hmem, h⟩).imp fun name n hn => ?_
    rw [(lookup_present hpresent).2 hn]

/-- As many items are read as there are names. -/
theorem sizesOfItems_eq_ok_iff {title : String} {done : Nat} :
    sizesOfItems title done names vs = .ok ns ↔
      ns.length = names.length ∧ ∃ rest, vs = ns.map sizeValue ++ rest := by
  induction names generalizing done vs ns with
  | nil => cases ns <;> simp [sizesOfItems]
  | cons name names ih =>
    cases vs with
    | nil => cases ns <;> simp [sizesOfItems]
    | cons v vs =>
      simp only [sizesOfItems, bind_eq_ok, uint32_eq_ok_iff, ih]
      constructor
      · rintro ⟨n, rfl, ns, ⟨hlength, rest, rfl⟩, ⟨⟩⟩
        exact ⟨congrArg _ hlength, rest, rfl⟩
      · rintro ⟨hlength, rest, hvs⟩
        obtain _ | ⟨n, ns⟩ := ns
        · contradiction
        · obtain ⟨rfl, rfl⟩ := List.cons.inj hvs
          exact ⟨n, rfl, ns, ⟨Nat.succ.inj hlength, rest, rfl⟩, rfl⟩

/-! ## Topologies -/

/-- A value is read as a topology just if it is one of its values. -/
theorem ofJson_eq_ok_iff {t : Topology} : ofJson v = .ok t ↔ Form v t := by
  constructor
  · intro h
    cases v with
    | object ms =>
      cases hkind : lookup "kind" ms with
      | none => simp [ofJson, hkind] at h
      | some v =>
        simp only [ofJson, hkind, bind_eq_ok, kind_ofJson_eq_ok_iff, sizesOfMembers_eq_ok_iff] at h
        obtain ⟨k, rfl, ns, hns, ⟨⟩⟩ := h
        exact .object hkind hns
    | list vs =>
      obtain _ | ⟨v, vs⟩ := vs
      · contradiction
      · simp only [ofJson, bind_eq_ok, kind_ofJson_eq_ok_iff, sizesOfItems_eq_ok_iff] at h
        obtain ⟨k, rfl, ns, ⟨hlength, rest, rfl⟩, h⟩ := h
        split at h
        · contradiction
        · rename_i hle
          obtain rfl : rest = [] := by
            rw [← List.length_eq_zero_iff]
            simp only [List.length_append, List.length_map] at hle
            omega
          obtain rfl := Except.ok.inj h
          rw [List.append_nil]
          exact .list hlength
    | _ => contradiction
  · rintro (⟨hkind, hsizes⟩ | hlength)
    · simp only [ofJson, hkind]
      exact bind_eq_ok.2 ⟨_, kind_ofJson_eq_ok_iff.2 rfl, bind_eq_ok.2
        ⟨_, sizesOfMembers_eq_ok_iff.2 hsizes, rfl⟩⟩
    · refine bind_eq_ok.2 ⟨_, kind_ofJson_eq_ok_iff.2 rfl, bind_eq_ok.2
        ⟨_, sizesOfItems_eq_ok_iff.2 ⟨hlength, [], (List.append_nil _).symm⟩, ?_⟩⟩
      rw [if_neg (by simp [hlength])]

/-- What is written of a topology is one of its values. -/
theorem form_toJson (t : Topology) : Form t.toJson t := by
  cases t with
  | full n => exact .object (k := .full) rfl (.cons rfl .nil)
  | ring n => exact .object (k := .ring) rfl (.cons rfl .nil)
  | grid r c l => exact .object (k := .grid) rfl (.cons rfl (.cons rfl (.cons rfl .nil)))

/-- What is written is read back. -/
theorem read_toJson (t : Topology) : ofJson t.toJson = .ok t := ofJson_eq_ok_iff.2 (form_toJson t)

end CouplingMap.Topology
