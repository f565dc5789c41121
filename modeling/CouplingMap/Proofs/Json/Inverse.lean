import CouplingMap.Json.Decoder
import CouplingMap.Proofs.Json.Reader

/-!
# What decoders get from values

A decoder and the JSON form of the things it makes belong together: from a form the decoder gets
the thing back, unless the thing breaks a rule that the decoder checks.

* `Decoder.Inverts`: a decoder, a form and a rule belong together. There is one lemma for each way
  to make a decoder.
-/

namespace CouplingMap.Json.Decoder

variable {α β γ : Type} {d : Decoder α} {e : Decoder β} {form : α → Json} {form' : β → Json}
  {Rule : α → Prop} {Rule' : β → Prop}

/-- A decoder gets exactly those things back from their forms that obey a rule. -/
def Inverts (d : Decoder α) (form : α → Json) (Rule : α → Prop) : Prop :=
  ∀ a b, d.fromValue (form a) = .ok b ↔ Rule a ∧ a = b

/-! ## Single values -/

/-- A form that is always read breaks no rule. -/
theorem inverts_of_eq_ok (h : ∀ a, d.fromValue (form a) = .ok a) :
    d.Inverts form fun _ => True := by
  intro a b
  rw [h a, Except.ok.injEq, true_and]

theorem fromValue_uint32 (i : UInt32) : uint32.fromValue (.number (.integer i.toNat)) = .ok i := by
  have hlt : i.toNat < UInt32.size := i.toNat_lt
  have hrange : (0 : Int) ≤ i.toNat ∧ (i.toNat : Int) < UInt32.size :=
    ⟨Int.natCast_nonneg _, Int.ofNat_lt.2 hlt⟩
  unfold uint32 number
  dsimp only
  rw [if_pos hrange, Int.toNat_natCast, UInt32.ofNat_toNat]

theorem inverts_uint32 : uint32.Inverts (fun i => .number (.integer i.toNat)) fun _ => True :=
  inverts_of_eq_ok fromValue_uint32

theorem inverts_double : double.Inverts (fun x => .number (.double x)) fun _ => True :=
  inverts_of_eq_ok fun _ => rfl

theorem inverts_string : string.Inverts .string fun _ => True := inverts_of_eq_ok fun _ => rfl

/-! ## Lists and pairs -/

theorem itemValues_eq_ok (h : d.Inverts form Rule) {as bs : List α} :
    d.itemValues (as.map form) = .ok bs ↔ (∀ a ∈ as, Rule a) ∧ as = bs := by
  induction as generalizing bs with
  | nil =>
    refine ⟨fun hnil => ⟨by simp, Except.ok.inj hnil⟩, ?_⟩
    rintro ⟨-, rfl⟩
    rfl
  | cons a as ih =>
    rw [List.map_cons, itemValues, bind_eq_ok]
    simp only [bind_eq_ok, h a, ih, List.forall_mem_cons]
    constructor
    · rintro ⟨_, ⟨ha, rfl⟩, _, ⟨has, rfl⟩, hbs⟩
      exact ⟨⟨ha, has⟩, Except.ok.inj hbs⟩
    · rintro ⟨⟨ha, has⟩, rfl⟩
      exact ⟨_, ⟨ha, rfl⟩, _, ⟨has, rfl⟩, rfl⟩

theorem Inverts.list (h : d.Inverts form Rule) :
    (list d).Inverts (fun as => .list (as.map form)) fun as => ∀ a ∈ as, Rule a :=
  fun _ _ => itemValues_eq_ok h

theorem Inverts.pair (title lengthTitle : String) (hd : d.Inverts form Rule)
    (he : e.Inverts form' Rule') :
    (pair title lengthTitle d e).Inverts (fun p => .list [form p.1, form' p.2])
      fun p => Rule p.1 ∧ Rule' p.2 := by
  rintro ⟨a, b⟩ ⟨a', b'⟩
  show d.fromValue (form a) >>= _ = _ ↔ _
  simp only [bind_eq_ok, hd a, he b]
  constructor
  · rintro ⟨_, ⟨ha, rfl⟩, _, ⟨hb, rfl⟩, hab⟩
    exact ⟨⟨ha, hb⟩, Except.ok.inj hab⟩
  · rintro ⟨⟨ha, hb⟩, hab⟩
    exact ⟨_, ⟨ha, rfl⟩, _, ⟨hb, rfl⟩, congrArg Except.ok hab⟩

/-! ## Decoders made of one other -/

/-- A form that is not null stands for something. -/
theorem Inverts.orNull (h : d.Inverts form Rule) (hform : ∀ a, form a ≠ .null) :
    (orNull d).Inverts (fun o => o.elim .null form) fun o => ∀ a ∈ o, Rule a := by
  rintro (_ | a) o
  · refine ⟨fun hnone => ⟨by simp, Except.ok.inj hnone⟩, ?_⟩
    rintro ⟨-, rfl⟩
    rfl
  · have hsome : (Decoder.orNull d).fromValue (form a) = (d.fromValue (form a)).map some := by
      have hne := hform a
      unfold Decoder.orNull
      dsimp only
      split
      · contradiction
      · rfl
    show (Decoder.orNull d).fromValue (form a) = _ ↔ _
    rw [hsome, map_eq_ok]
    simp only [h a, Option.mem_def, Option.some.injEq, forall_eq']
    constructor
    · rintro ⟨_, ⟨ha, rfl⟩, ho⟩
      exact ⟨ha, ho⟩
    · rintro ⟨ha, ho⟩
      exact ⟨a, ⟨ha, rfl⟩, ho⟩

/-- A check that makes a thing of its parts adds its rule. -/
theorem Inverts.check {Checked : γ → Prop} (rule : α → Except String γ) (parts : γ → α)
    (h : d.Inverts form Rule)
    (hrule : ∀ c c', rule (parts c) = .ok c' ↔ Checked c ∧ c = c') :
    (check rule d).Inverts (fun c => form (parts c)) fun c => Rule (parts c) ∧ Checked c := by
  intro c c'
  show d.fromValue (form (parts c)) >>= _ = _ ↔ _
  rw [bind_eq_ok, and_assoc, ← hrule]
  constructor
  · rintro ⟨a, ha, hc⟩
    obtain ⟨hr, rfl⟩ := (h _ _).1 ha
    refine ⟨hr, ?_⟩
    split at hc
    · rename_i heq
      exact heq.trans (congrArg Except.ok (Except.ok.inj hc))
    · contradiction
  · rintro ⟨hr, hc⟩
    refine ⟨_, (h _ _).2 ⟨hr, rfl⟩, ?_⟩
    rw [hc]

/-- A function that makes a thing of its parts changes no rule. -/
theorem Inverts.map (f : α → γ) (parts : γ → α) (h : d.Inverts form Rule)
    (hparts : ∀ c, f (parts c) = c) :
    (map f d).Inverts (fun c => form (parts c)) fun c => Rule (parts c) := by
  intro c c'
  show (d.fromValue (form (parts c))).map f = _ ↔ _
  rw [map_eq_ok]
  constructor
  · rintro ⟨a, ha, rfl⟩
    obtain ⟨hr, rfl⟩ := (h _ _).1 ha
    exact ⟨hr, (hparts c).symm⟩
  · rintro ⟨hr, rfl⟩
    exact ⟨_, (h _ _).2 ⟨hr, rfl⟩, hparts c⟩

/-! ## Records -/

theorem recordFields_eq_ok {f : Field α} {g : Field β} (hne : f.name ≠ g.name)
    (hf : f.decoder.Inverts form Rule) (hg : g.decoder.Inverts form' Rule') {a : α} {b : β}
    {found : Option α × Option β} :
    recordFields f g [(f.name, form a), (g.name, form' b)] = .ok found ↔
      (Rule a ∧ Rule' b) ∧ (some a, some b) = found := by
  have hfirst : lookup f.name [(f.name, form a), (g.name, form' b)] = some (form a) := by
    simp [lookup, hne.symm]
  have hsecond : lookup g.name [(f.name, form a), (g.name, form' b)] = some (form' b) := by
    simp [lookup]
  unfold recordFields Field.find
  simp only [hfirst, hsecond]
  split
  · simp only [bind_eq_ok, map_eq_ok, hf a, hg b]
    constructor
    · rintro ⟨_, ⟨_, ⟨ha, rfl⟩, rfl⟩, _, ⟨_, ⟨hb, rfl⟩, rfl⟩, hfound⟩
      exact ⟨⟨ha, hb⟩, Except.ok.inj hfound⟩
    · rintro ⟨⟨ha, hb⟩, rfl⟩
      exact ⟨_, ⟨_, ⟨ha, rfl⟩, rfl⟩, _, ⟨_, ⟨hb, rfl⟩, rfl⟩, rfl⟩
  · simp only [bind_eq_ok, map_eq_ok, hf a, hg b]
    constructor
    · rintro ⟨_, ⟨_, ⟨hb, rfl⟩, rfl⟩, _, ⟨_, ⟨ha, rfl⟩, rfl⟩, hfound⟩
      exact ⟨⟨ha, hb⟩, Except.ok.inj hfound⟩
    · rintro ⟨⟨ha, hb⟩, rfl⟩
      exact ⟨_, ⟨_, ⟨hb, rfl⟩, rfl⟩, _, ⟨_, ⟨ha, rfl⟩, rfl⟩, rfl⟩

theorem Inverts.record (title : String) (f : Field α) (g : Field β) (hne : f.name ≠ g.name)
    (hf : f.decoder.Inverts form Rule) (hg : g.decoder.Inverts form' Rule') :
    (record title f g).Inverts
      (fun p => .object [(f.name, form p.1), (g.name, form' p.2)])
      fun p => Rule p.1 ∧ Rule' p.2 := by
  rintro ⟨a, b⟩ p
  show recordFields f g _ >>= _ = _ ↔ _
  rw [bind_eq_ok]
  simp only [recordFields_eq_ok hne hf hg]
  constructor
  · rintro ⟨_, ⟨hab, rfl⟩, hp⟩
    exact ⟨hab, Except.ok.inj hp⟩
  · rintro ⟨hab, rfl⟩
    exact ⟨_, ⟨hab, rfl⟩, rfl⟩

end CouplingMap.Json.Decoder
