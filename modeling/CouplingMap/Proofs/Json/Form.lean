import CouplingMap.Proofs.Json.Agreement
import CouplingMap.Proofs.Json.Inverse
import Mathlib.Data.List.Forall2

/-!
# The forms that decoders accept

A decoder makes its things of just those values that have a certain form.

* `Decoder.Accepts`: a decoder and a form belong together. There is one rule for each way to make a
  decoder.
* `Decoder.Given`: the form of a part that may be left out.
-/

namespace CouplingMap.Json.Decoder

variable {α β : Type} {d : Decoder α} {e : Decoder β} {Form : Json → α → Prop}
  {Form' : Json → β → Prop}

/-- A decoder makes a thing of a value just if the value has the form of the thing. -/
def Accepts (d : Decoder α) (Form : Json → α → Prop) : Prop :=
  ∀ v a, d.fromValue v = .ok a ↔ Form v a

/-! ## Single values -/

theorem accepts_uint32 : uint32.Accepts fun v i => v = .number (.integer i.toNat) := by
  intro v i
  constructor
  · intro h
    unfold uint32 number at h
    dsimp only at h
    split at h
    · split at h
      · split at h
        · rename_i j hj
          obtain rfl := Except.ok.inj h
          have hlt : j.toNat < UInt32.size := by omega
          rw [UInt32.toNat_ofNat_of_lt' hlt, Int.toNat_of_nonneg hj.1]
        · contradiction
      · contradiction
    · contradiction
  · rintro rfl
    exact fromValue_uint32 i

/-- A number of either class is made a double. -/
theorem accepts_double :
    double.Accepts fun v x => ∃ n : Number, v = .number n ∧ n.toBinary64 = x := by
  intro v x
  cases v with
  | number n =>
    refine ⟨fun h => ⟨n, rfl, Except.ok.inj h⟩, ?_⟩
    rintro ⟨m, ⟨⟩, rfl⟩
    rfl
  | _ => exact ⟨nofun, nofun⟩

theorem accepts_string : string.Accepts fun v s => v = .string s := by
  intro v s
  cases v with
  | string t => exact ⟨fun h => congrArg _ (Except.ok.inj h), fun h => congrArg _ (string.inj h)⟩
  | _ => exact ⟨nofun, nofun⟩

/-! ## Lists and pairs -/

/-- The items are decoded one by one. -/
theorem itemValues_eq_ok_iff (h : d.Accepts Form) {vs : List Json} {as : List α} :
    d.itemValues vs = .ok as ↔ List.Forall₂ Form vs as := by
  induction vs generalizing as with
  | nil =>
    rw [List.forall₂_nil_left_iff]
    exact ⟨fun hnil => (Except.ok.inj hnil).symm, fun hnil => congrArg _ hnil.symm⟩
  | cons v vs ih =>
    simp only [itemValues, bind_eq_ok, h v, ih, List.forall₂_cons_left_iff]
    constructor
    · rintro ⟨a, ha, as, has, ⟨⟩⟩
      exact ⟨a, as, ha, has, rfl⟩
    · rintro ⟨a, as, ha, has, rfl⟩
      exact ⟨a, ha, as, has, rfl⟩

theorem Accepts.list (h : d.Accepts Form) :
    (list d).Accepts fun v as => ∃ vs, v = .list vs ∧ List.Forall₂ Form vs as := by
  intro v as
  cases v with
  | list vs =>
    refine (itemValues_eq_ok_iff h).trans ⟨fun hvs => ⟨vs, rfl, hvs⟩, ?_⟩
    rintro ⟨_, ⟨⟩, hvs⟩
    exact hvs
  | _ => exact ⟨nofun, nofun⟩

/-- A pair is a list of just two items. -/
theorem Accepts.pair (title lengthTitle : String) (hd : d.Accepts Form) (he : e.Accepts Form') :
    (pair title lengthTitle d e).Accepts fun v p =>
      ∃ x y, v = .list [x, y] ∧ Form x p.1 ∧ Form' y p.2 := by
  rintro v ⟨a, b⟩
  cases v with
  | list vs =>
    match vs with
    | [] => exact ⟨nofun, nofun⟩
    | [x] =>
      refine ⟨fun h => ?_, nofun⟩
      obtain ⟨_, _, h⟩ := bind_eq_ok.1 h
      contradiction
    | x :: y :: rest =>
      show d.fromValue x >>= _ = _ ↔ _
      simp only [bind_eq_ok, hd x, he y]
      constructor
      · rintro ⟨_, ha, _, hb, h⟩
        split at h
        · rename_i hrest
          obtain ⟨⟩ := h
          exact ⟨x, y, by rw [List.isEmpty_iff.1 hrest], ha, hb⟩
        · contradiction
      · rintro ⟨_, _, ⟨⟩, ha, hb⟩
        exact ⟨a, ha, b, hb, rfl⟩
  | _ => exact ⟨nofun, nofun⟩

/-! ## Decoders made of one other -/

theorem Accepts.orNull (h : d.Accepts Form) : (orNull d).Accepts fun v o =>
    v = .null ∧ o = none ∨ v ≠ .null ∧ ∃ a, o = some a ∧ Form v a := by
  intro v o
  by_cases hv : v = .null
  · subst hv
    refine ⟨fun hnone => .inl ⟨rfl, (Except.ok.inj hnone).symm⟩, ?_⟩
    rintro (⟨-, rfl⟩ | ⟨hne, -⟩)
    · rfl
    · contradiction
  · have hsome : (Decoder.orNull d).fromValue v = (d.fromValue v).map some := by
      unfold Decoder.orNull
      dsimp only
      split
      · contradiction
      · rfl
    rw [hsome, map_eq_ok]
    simp only [h v]
    constructor
    · rintro ⟨a, ha, rfl⟩
      exact .inr ⟨hv, a, rfl, ha⟩
    · rintro (⟨hnull, -⟩ | ⟨-, a, rfl, ha⟩)
      · contradiction
      · exact ⟨a, ha, rfl⟩

theorem Accepts.check (rule : α → Except String β) (h : d.Accepts Form) :
    (check rule d).Accepts fun v b => ∃ a, Form v a ∧ rule a = .ok b := by
  intro v b
  show d.fromValue v >>= _ = _ ↔ _
  simp only [bind_eq_ok, h v]
  refine exists_congr fun a => and_congr_right fun _ => ?_
  cases rule a with
  | error message => exact ⟨nofun, nofun⟩
  | ok b' => exact ⟨fun h => congrArg _ (Except.ok.inj h), fun h => congrArg _ (Except.ok.inj h)⟩

theorem Accepts.map (f : α → β) (h : d.Accepts Form) :
    (map f d).Accepts fun v b => ∃ a, Form v a ∧ f a = b := by
  intro v b
  show (d.fromValue v).map f = _ ↔ _
  simp only [map_eq_ok, h v]

/-! ## Records -/

/-- A part is there and has its form, or it is left out and there is a thing for this case. -/
def Given (absent : Option α) (Form : Json → α → Prop) : Option Json → α → Prop
  | none, a => absent = some a
  | some v, a => Form v a

theorem given_none {v? : Option Json} {a : α} :
    Given none Form v? a ↔ ∃ v, v? = some v ∧ Form v a := by
  cases v? with
  | none => exact ⟨nofun, nofun⟩
  | some v => exact ⟨fun h => ⟨v, rfl, h⟩, fun ⟨_, hv, h⟩ => Option.some.inj hv ▸ h⟩

variable {f : Field α} {g : Field β}

/-- A field is found among the members of an object by its name. -/
theorem find_settle_eq_ok (hf : f.decoder.Accepts Form) {ms : List (String × Json)}
    {problem : Mismatch} {a : α} :
    (∃ found, f.find ms = .ok found ∧ f.settle problem found = .ok a) ↔
      Given f.absent Form (lookup f.name ms) a := by
  simp only [Field.settle_eq_ok]
  unfold Field.find
  cases lookup f.name ms with
  | none =>
    refine ⟨?_, fun ha => ⟨none, rfl, ha⟩⟩
    rintro ⟨found, ⟨⟩, ha⟩
    exact ha
  | some v =>
    simp only [map_eq_ok, hf v]
    constructor
    · rintro ⟨_, ⟨b, hb, rfl⟩, ⟨⟩⟩
      exact hb
    · exact fun ha => ⟨some a, ⟨a, ha, rfl⟩, rfl⟩

/-- The fields are the items of a list in order, and none follows them. -/
theorem recordValues_eq_ok_iff (title : String) (hf : f.decoder.Accepts Form)
    (hg : g.decoder.Accepts Form') {vs : List Json} {p : α × β} :
    recordValues title f g vs = .ok p ↔ vs.length ≤ 2 ∧
      Given f.absent Form vs[0]? p.1 ∧ Given g.absent Form' vs[1]? p.2 := by
  obtain ⟨a, b⟩ := p
  match vs with
  | [] =>
    simp only [recordValues, bind_eq_ok, Field.settle_eq_ok, Option.none_or]
    constructor
    · rintro ⟨_, ha, _, hb, ⟨⟩⟩
      exact ⟨Nat.zero_le 2, ha, hb⟩
    · rintro ⟨-, ha, hb⟩
      exact ⟨a, ha, b, hb, rfl⟩
  | [x] =>
    simp only [recordValues, bind_eq_ok, Field.settle_eq_ok, Option.none_or, hf x]
    constructor
    · rintro ⟨_, ha, _, hb, ⟨⟩⟩
      exact ⟨Nat.le_succ 1, ha, hb⟩
    · rintro ⟨-, ha, hb⟩
      exact ⟨a, ha, b, hb, rfl⟩
  | x :: y :: rest =>
    simp only [recordValues, bind_eq_ok, hf x, hg y]
    constructor
    · rintro ⟨_, ha, _, hb, h⟩
      split at h
      · rename_i hrest
        obtain ⟨⟩ := h
        exact ⟨by simp [List.isEmpty_iff.1 hrest], ha, hb⟩
      · contradiction
    · rintro ⟨hlength, ha, hb⟩
      obtain rfl : rest = [] := List.length_eq_zero_iff.1 (by simpa using hlength)
      exact ⟨a, ha, b, hb, rfl⟩

/-- A record is an object with its fields among the members, or a list of its fields. -/
theorem Accepts.record (title : String) (hf : f.decoder.Accepts Form)
    (hg : g.decoder.Accepts Form') : (record title f g).Accepts fun v p =>
      (∃ ms, v = .object ms ∧ Given f.absent Form (lookup f.name ms) p.1 ∧
        Given g.absent Form' (lookup g.name ms) p.2) ∨
      ∃ vs, v = .list vs ∧ vs.length ≤ 2 ∧ Given f.absent Form vs[0]? p.1 ∧
        Given g.absent Form' vs[1]? p.2 := by
  rintro v ⟨a, b⟩
  cases v with
  | list vs =>
    refine (recordValues_eq_ok_iff title hf hg).trans ⟨fun h => .inr ⟨vs, rfl, h⟩, ?_⟩
    rintro (⟨_, ⟨⟩, -⟩ | ⟨_, ⟨⟩, h⟩)
    exact h
  | object ms =>
    show recordFields f g ms >>= _ = _ ↔ _
    simp only [bind_eq_ok, Prod.exists, recordFields_eq_ok_iff]
    constructor
    · rintro ⟨found, found', ⟨ha, hb⟩, _, ha', _, hb', ⟨⟩⟩
      exact .inl ⟨ms, rfl, (find_settle_eq_ok hf).1 ⟨_, ha, ha'⟩,
        (find_settle_eq_ok hg).1 ⟨_, hb, hb'⟩⟩
    · rintro (⟨_, ⟨⟩, ha, hb⟩ | ⟨_, ⟨⟩, -⟩)
      obtain ⟨found, ha, ha'⟩ := (find_settle_eq_ok hf).2 ha
      obtain ⟨found', hb, hb'⟩ := (find_settle_eq_ok hg).2 hb
      exact ⟨found, found', ⟨ha, hb⟩, a, ha', b, hb', rfl⟩
  | _ => exact ⟨nofun, fun h => by rcases h with ⟨_, ⟨⟩, _⟩ | ⟨_, ⟨⟩, _⟩⟩

end CouplingMap.Json.Decoder
