import CouplingMap.Proofs.Json.Reader
import CouplingMap.Proofs.Yaml.Builder
import CouplingMap.Proofs.Yaml.Kind
import Mathlib.Data.List.Forall2

/-!
# The forms that decoders accept

A decoder gets a value of a document just if the events of the value have a certain form. The forms
speak of nodes, of what aliases mean and of the entries of mappings, not of how events are read.

* `Document.Means`: the node that is meant by a node, which is another one for an alias.
* `Document.IsScalar`, `Document.IsMapping`: what is in a node.
* `Decoder.Accepts`: a decoder and a form belong together. There is one rule for each way to make a
  decoder.
* `Given`: the form of an entry that may be left out.
* `Document.decode_eq_ok_iff`: the value of a text.
-/

namespace CouplingMap.Yaml

variable {α β σ : Type} {d : Document} {es rest : Events} {e : Placed Event}

/-! ## What is in a node -/

namespace Document

/-- The node that is meant by a node: itself, but an alias means the last node of the document with
its anchor. -/
inductive Means (d : Document) : Events → Events → Prop where
  | self {e : Placed Event} {inner : Events} (h : ∀ a, e.value ≠ .aliasOf a) :
    Means d (e :: inner) (e :: inner)
  | aliasOf {e first : Placed Event} {a : Nat} {before inner after : Events}
    (h : e.value = .aliasOf a) (hnode : IsNode (first :: inner))
    (hevents : d.events = before ++ first :: (inner ++ after))
    (hfirst : first.value.anchor? = some a)
    (hlast : ∀ e ∈ inner ++ after, e.value.anchor? ≠ some a) : Means d [e] (first :: inner)

/-- A node means a scalar. -/
def IsScalar (d : Document) (es : Events) (s : Scalar) : Prop :=
  ∃ (e : Placed Event) (anchor : Option Nat), d.Means es [e] ∧ e.value = .scalar anchor s

/-- A node means a scalar with a text, of whatever kind. -/
def IsText (d : Document) (es : Events) (t : String) : Prop :=
  ∃ s, d.IsScalar es s ∧ s.text = t.toList

/-- A node means a truth value. -/
def IsTruth (d : Document) (es : Events) (b : Bool) : Prop :=
  ∃ s, d.IsScalar es s ∧ s.MayBe "bool" ∧ SpellsTruth (String.ofList s.text) b

/-- A node means a natural number of 64 bits. -/
def IsNatural (d : Document) (es : Events) (n : Nat) : Prop :=
  ∃ s, d.IsScalar es s ∧ s.MayBe "int" ∧ SpellsNatural s.text n ∧ n < UInt64.size

/-- The nodes of an entry, with the text of its key and the events of its value. -/
structure IsEntry (d : Document) (m : Events × Events) (p : String × Events) : Prop where
  key : d.IsText m.1 p.1
  value : m.2 = p.2
  isNode_key : IsNode m.1
  isNode_value : IsNode m.2

/-- A node means a mapping with some entries. A plain scalar without text has none. -/
inductive IsMapping (d : Document) (es : Events) : List (String × Events) → Prop where
  | empty {s : Scalar} (h : d.IsScalar es s) (htext : s.text = []) (hstyle : s.style = .plain) :
    IsMapping d es []
  | entries {first last : Placed Event} {anchor : Option Nat} {entries : List (Events × Events)}
    {ms : List (String × Events)} (h : d.Means es (first :: (pieces entries ++ [last])))
    (hfirst : first.value = .openMapping anchor) (hlast : last.value = .closeMapping)
    (hms : List.Forall₂ d.IsEntry entries ms) : IsMapping d es ms

/-- The events of a document are those of a node, if there are any. -/
def Whole (d : Document) : Prop := d.events = [] ∨ IsNode d.events

theorem ne_aliasOf_of_anchor {a : Nat} (h : e.value.anchor? = some a) :
    ∀ b, e.value ≠ .aliasOf b := fun b hb => by simp [hb, Event.anchor?] at h

/-- What an alias means starts at its target. -/
theorem Means.of_target (hd : d.Whole) {a : Nat} {first : Placed Event} {tail : Events}
    (he : e.value = .aliasOf a) (h : d.target a = first :: tail) :
    ∃ inner after, tail = inner ++ after ∧ d.Means [e] (first :: inner) ∧
      IsNode (first :: inner) ∧ (∀ b, first.value ≠ .aliasOf b) ∧
      (first :: inner).length ≤ d.events.length := by
  have hsome : lastFrom (fun e => e.value.anchor? = some a) d.events = some (first :: tail) := by
    unfold target at h
    cases hl : lastFrom (fun e : Placed Event => e.value.anchor? = some a) d.events with
    | none => simp [hl] at h
    | some bs => simpa [hl] using h
  obtain ⟨before, b, after, hevents, hb, hanchor, hlast⟩ := lastFrom_eq_some_iff.1 hsome
  obtain ⟨rfl, rfl⟩ := List.cons.inj hb
  have hanchor : first.value.anchor? = some a := by simpa using hanchor
  have hopen : ¬ first.value.closes := by
    rintro (h | h) <;> simp [h, Event.anchor?] at hanchor
  have hnode : IsNode d.events := hd.resolve_left (by simp [hevents])
  obtain ⟨inner, after, rfl, hinner⟩ := hnode.exists_node hopen before tail hevents
  refine ⟨inner, after, rfl, .aliasOf he hinner hevents hanchor fun e hmem => ?_, hinner,
    ne_aliasOf_of_anchor hanchor, ?_⟩
  · simpa using hlast e hmem
  · simp only [hevents, List.length_append, List.length_cons]
    omega

/-- The target of an alias starts with the node that the alias means. -/
theorem target_eq {a : Nat} {first : Placed Event} {before inner after : Events}
    (hevents : d.events = before ++ first :: (inner ++ after))
    (hfirst : first.value.anchor? = some a)
    (hlast : ∀ e ∈ inner ++ after, e.value.anchor? ≠ some a) :
    d.target a = first :: (inner ++ after) := by
  have hsome : lastFrom (fun e => e.value.anchor? = some a) d.events =
      some (first :: (inner ++ after)) :=
    lastFrom_eq_some_iff.2 ⟨before, first, _, hevents, rfl, by simpa using hfirst,
      fun e he => by simpa using hlast e he⟩
  rw [target, hsome]
  rfl

end Document

open Document

theorem IsNode.eq_nil_of_scalar {inner : Events} {anchor : Option Nat} {s : Scalar}
    (h : IsNode (e :: inner)) (he : e.value = .scalar anchor s) : inner = [] := by
  cases h with
  | aliasOf | scalar => rfl
  | sequence hfirst | mapping hfirst => simp [he] at hfirst

theorem IsNode.eq_nil_of_aliasOf {inner : Events} {a : Nat} (h : IsNode (e :: inner))
    (he : e.value = .aliasOf a) : inner = [] := by
  cases h with
  | aliasOf h | scalar h => rfl
  | sequence hfirst | mapping hfirst => simp [he] at hfirst

theorem IsNode.exists_entries {inner : Events} {anchor : Option Nat} (h : IsNode (e :: inner))
    (he : e.value = .openMapping anchor) : ∃ (entries : List (Events × Events)) (last : Placed Event),
      inner = pieces entries ++ [last] ∧ last.value = .closeMapping ∧
      (∀ m ∈ entries, IsNode m.1) ∧ ∀ m ∈ entries, IsNode m.2 := by
  cases h with
  | aliasOf h | scalar h => simp [he] at h
  | sequence hfirst => simp [he] at hfirst
  | mapping _ hkeys hvalues hlast => exact ⟨_, _, rfl, hlast, hkeys, hvalues⟩

theorem forall_isNode {entries : List (Events × Events)} {ms : List (String × Events)}
    (h : List.Forall₂ d.IsEntry entries ms) : ∀ m ∈ entries, IsNode m.1 ∧ IsNode m.2 := by
  induction h with
  | nil => simp
  | cons hm _ ih => exact List.forall_mem_cons.2 ⟨⟨hm.isNode_key, hm.isNode_value⟩, ih⟩

namespace Decoder

/-- A decoder gets a value of a node just if the node has the form of the value; it passes over the
node. The nodes are as long as those of the document can be. -/
def Accepts (d : Document) (decoder : Decoder α) (P : Events → α → Prop) : Prop :=
  ∀ keys es rest a rest', IsNode es → es.length ≤ d.events.length + 1 →
    (decoder d keys (es ++ rest) = .ok (a, rest') ↔ rest' = rest ∧ P es a)

variable {P Q : Events → α → Prop} {decoder : Decoder α}

theorem Accepts.congr (h : Accepts d decoder P) (hPQ : ∀ es a, P es a ↔ Q es a) :
    Accepts d decoder Q := fun keys es rest a rest' hes hlength =>
  (h keys es rest a rest' hes hlength).trans (and_congr_right fun _ => hPQ es a)

theorem Accepts.map (f : α → β) (h : Accepts d decoder P) :
    Accepts d (map f decoder) fun es b => ∃ a, P es a ∧ f a = b := by
  intro keys es rest b rest' hes hlength
  simp only [Decoder.map, map_eq_ok, Prod.exists, h keys es rest _ _ hes hlength, Prod.mk.injEq]
  constructor
  · rintro ⟨a, _, ⟨rfl, ha⟩, rfl, rfl⟩
    exact ⟨rfl, a, ha, rfl⟩
  · rintro ⟨rfl, a, ha, rfl⟩
    exact ⟨a, _, ⟨rfl, ha⟩, rfl, rfl⟩

/-- A reader of nodes that are no aliases. -/
def Reads (d : Document) (read : Placed Event → Decoder α) (P : Events → α → Prop) : Prop :=
  ∀ e inner keys rest a rest', IsNode (e :: inner) → (∀ b, e.value ≠ .aliasOf b) →
    (e :: inner).length ≤ d.events.length + 1 →
    (read e d keys (inner ++ rest) = .ok (a, rest') ↔ rest' = rest ∧ P (e :: inner) a)

/-- A decoder of nodes gets what the node that is meant is read as. -/
theorem Reads.ofNode {read : Placed Event → Decoder α} (h : Reads d read P) (hd : d.Whole) :
    Accepts d (ofNode read) fun es a => ∃ node, d.Means es node ∧ P node a := by
  intro keys es rest a rest' hes hlength
  obtain ⟨e, inner, rfl, -⟩ := hes.exists_cons
  by_cases he : ∃ b, e.value = .aliasOf b
  · obtain ⟨b, he⟩ := he
    obtain rfl := hes.eq_nil_of_aliasOf he
    simp only [Decoder.ofNode, List.cons_append, List.nil_append, he]
    constructor
    · intro hok
      split at hok
      · contradiction
      · rename_i first tail htarget
        obtain ⟨r, hr, hrest⟩ := map_eq_ok.1 hok
        obtain ⟨rfl, rfl⟩ := Prod.mk.inj hrest
        obtain ⟨inner, after, rfl, hmeans, hnode, hfirst, hle⟩ := Means.of_target hd he htarget
        exact ⟨rfl, _, hmeans, ((h _ _ _ _ _ _ hnode hfirst (by omega)).1 hr).2⟩
    · rintro ⟨rfl, node, hmeans, hform⟩
      cases hmeans with
      | self hself => exact absurd he (hself b)
      | @aliasOf _ first a' before inner after he' hnode hevents hanchor hlast =>
        obtain rfl : b = a' := by simpa [he] using he'
        rw [target_eq hevents hanchor hlast]
        have hle : (first :: inner).length ≤ d.events.length + 1 := by
          simp only [hevents, List.length_append, List.length_cons]
          omega
        have hfirst := ne_aliasOf_of_anchor hanchor
        exact map_eq_ok.2 ⟨_, (h _ _ _ _ _ _ hnode hfirst hle).2 ⟨rfl, hform⟩, rfl⟩
  · have he : ∀ b, e.value ≠ .aliasOf b := fun b hb => he ⟨b, hb⟩
    simp only [Decoder.ofNode, List.cons_append, h _ _ _ _ _ _ hes he hlength]
    refine and_congr_right fun _ => ⟨fun hform => ⟨_, .self he, hform⟩, ?_⟩
    rintro ⟨node, hmeans, hform⟩
    cases hmeans with
    | self => exact hform
    | aliasOf hb => exact absurd hb (he _)

/-! ## Scalars -/

/-- Scalars are decoded if something can be made of them. -/
theorem accepts_scalar (hd : d.Whole) (expected : String) (read? : Scalar → Option α) :
    Accepts d (scalar expected read?) fun es a => ∃ s, d.IsScalar es s ∧ read? s = some a := by
  let Q (node : Events) (a : α) : Prop :=
    ∃ e anchor s, node = [e] ∧ e.value = .scalar anchor s ∧ read? s = some a
  refine (Reads.ofNode (P := Q) ?_ hd).congr fun es a => ?_
  · intro e inner keys rest a rest' hnode _ _
    cases he : e.value with
    | scalar anchor s =>
      obtain rfl := hnode.eq_nil_of_scalar he
      cases hs : read? s with
      | none => simp [Q, refuse, he, hs]
      | some b => simp [Q, he, hs, and_comm, eq_comm]
    | _ => simp [Q, refuse, he]
  · constructor
    · rintro ⟨_, hmeans, e, anchor, s, rfl, he, hs⟩
      exact ⟨s, ⟨e, anchor, hmeans, he⟩, hs⟩
    · rintro ⟨s, ⟨e, anchor, hmeans, he⟩, hs⟩
      exact ⟨_, hmeans, e, anchor, s, rfl, he, hs⟩

/-- Texts are the texts of scalars of any kind. -/
theorem accepts_text (hd : d.Whole) (expected : String) :
    Accepts d (text expected) d.IsText := by
  refine (accepts_scalar hd expected _).congr fun es t => ?_
  refine exists_congr fun s => and_congr_right fun _ => ?_
  rw [Option.some.injEq, ← String.toList_inj, String.toList_ofList]

theorem accepts_truth (hd : d.Whole) : Accepts d truth d.IsTruth := by
  refine (accepts_scalar hd "a boolean" _).congr fun es b => ?_
  refine exists_congr fun s => and_congr_right fun _ => ?_
  rw [Option.ite_none_right_eq_some, Scalar.canBe_iff, truth?_eq_some_iff]

theorem accepts_natural (hd : d.Whole) : Accepts d natural d.IsNatural := by
  refine (accepts_scalar hd "usize" _).congr fun es n => ?_
  refine exists_congr fun s => and_congr_right fun _ => ?_
  rw [Option.ite_none_right_eq_some, Scalar.canBe_iff, Option.filter_eq_some_iff,
    unsigned?_eq_some_iff, decide_eq_true_eq]

/-! ## Mappings -/

/-- What the value of a key does to what is known of the entries before it: nothing if the key is
not asked for, and it is refused if the key has been read before. -/
def Member.Accepts (d : Document) (s : σ) (P : Events → σ → Prop) : Member σ → Prop
  | .unknown => ∀ es t, P es t ↔ t = s
  | .repeated => ∀ es t, ¬ P es t
  | .known decoder => decoder.Accepts d P

theorem Member.Accepts.congr {P Q : Events → σ → Prop} {m : Member σ} {s : σ}
    (h : m.Accepts d s P) (hPQ : ∀ es t, P es t ↔ Q es t) : m.Accepts d s Q := by
  cases m with
  | unknown => exact fun es t => (hPQ es t).symm.trans (h es t)
  | repeated => exact fun es t => (hPQ es t).not.1 (h es t)
  | known decoder => exact Decoder.Accepts.congr h hPQ

/-- The entries of a mapping change what is known step by step. -/
inductive Steps (R : σ → String → Events → σ → Prop) :
    List (String × Events) → σ → σ → Prop where
  | nil (s : σ) : Steps R [] s s
  | cons {s t u : σ} {key : String} {es : Events} {ms : List (String × Events)}
    (h : R s key es t) (hms : Steps R ms t u) : Steps R ((key, es) :: ms) s u

variable {T : σ → String → Events → σ → Prop} {member : σ → String → Member σ} {s t u : σ}
  {ms : List (String × Events)}

theorem steps_nil : Steps T [] s t ↔ t = s := by
  constructor
  · rintro ⟨⟩
    rfl
  · rintro rfl
    exact .nil t

theorem steps_cons {m : String × Events} :
    Steps T (m :: ms) s u ↔ ∃ t, T s m.1 m.2 t ∧ Steps T ms t u := by
  constructor
  · rintro (_ | ⟨h, hms⟩)
    exact ⟨_, h, hms⟩
  · rintro ⟨t, h, hms⟩
    exact .cons h hms

theorem length_le_pieces {entries : List (Events × Events)} {m : Events × Events}
    (h : m ∈ entries) : m.1.length + m.2.length ≤ (pieces entries).length := by
  obtain ⟨before, after, rfl⟩ := List.append_of_mem h
  simp only [pieces, List.flatMap_append, List.flatMap_cons, List.length_append]
  omega

theorem length_le_length_pieces {entries : List (Events × Events)} (h : ∀ m ∈ entries, IsNode m.1) :
    entries.length ≤ (pieces entries).length := by
  induction entries with
  | nil => simp
  | cons m entries ih =>
    obtain ⟨e, inner, he, -⟩ := (h m List.mem_cons_self).exists_cons
    have hle := ih fun m hm => h m (List.mem_cons_of_mem _ hm)
    simp only [pieces, List.flatMap_cons, List.length_append, he, List.length_cons] at hle ⊢
    omega

/-- The entries of a mapping are read one by one. -/
theorem entriesFrom_eq_ok_iff (hd : d.Whole)
    (hmember : ∀ s key, (member s key).Accepts d s (T s key)) {start : Place} {keys : List String}
    {last : Placed Event} (hlast : last.value = .closeMapping) {rest' : Events}
    {entries : List (Events × Events)} {bound : Events}
    (hkeys : ∀ m ∈ entries, IsNode m.1) (hvalues : ∀ m ∈ entries, IsNode m.2)
    (hlength : ∀ m ∈ entries, m.1.length + m.2.length ≤ d.events.length)
    (hbound : entries.length < bound.length) :
    entriesFrom member start bound s d keys (pieces entries ++ last :: rest) = .ok (u, rest') ↔
      rest' = rest ∧ ∃ ms, List.Forall₂ d.IsEntry entries ms ∧ Steps T ms s u := by
  induction entries generalizing bound s with
  | nil =>
    obtain _ | ⟨b, bound⟩ := bound
    · simp at hbound
    · simp [entriesFrom, pieces, hlast, steps_nil, and_comm, eq_comm]
  | cons m entries ih =>
    obtain _ | ⟨b, bound⟩ := bound
    · simp at hbound
    obtain ⟨hk, hkeys⟩ := List.forall_mem_cons.1 hkeys
    obtain ⟨hv, hvalues⟩ := List.forall_mem_cons.1 hvalues
    obtain ⟨hm, hlength⟩ := List.forall_mem_cons.1 hlength
    have hbound : entries.length < bound.length := by simpa using hbound
    have hrest {s : σ} := ih (s := s) hkeys hvalues hlength hbound
    obtain ⟨e, inner, he, hopen⟩ := hk.exists_cons
    have hne : e.value ≠ .closeMapping := fun h => hopen (.inr h)
    let tail := m.2 ++ (pieces entries ++ last :: rest)
    have hfront : pieces (m :: entries) ++ last :: rest = e :: (inner ++ tail) := by
      simp [pieces, tail, he]
    have hback : e :: (inner ++ tail) = m.1 ++ tail := by simp [he]
    have htext (key : String) (events : Events) :=
      accepts_text hd "field identifier" keys m.1 tail key events hk (by omega)
    rw [hfront, entriesFrom, if_neg hne, bind_eq_ok, hback]
    simp only [Prod.exists, htext]
    calc _ ↔ ∃ key, d.IsText m.1 key ∧ rest' = rest ∧ ∃ t, T s key m.2 t ∧
          ∃ ms, List.Forall₂ d.IsEntry entries ms ∧ Steps T ms t u := by
          refine exists_congr fun key => ?_
          have hkey := hmember s key
          simp only [and_assoc, exists_eq_left]
          refine and_congr_right fun _ => ?_
          cases hmem : member s key with
          | unknown =>
            rw [hmem] at hkey
            simp only [hkey m.2, exists_eq_left, hv.skipFrom_zero, tail]
            exact hrest
          | repeated =>
            rw [hmem] at hkey
            simp [hkey m.2]
          | known decoder =>
            rw [hmem] at hkey
            simp only [tail, bind_eq_ok, Prod.exists, hkey _ m.2 _ _ _ hv (by omega), hrest,
              and_assoc, exists_eq_left]
            constructor
            · exact fun ⟨t, ht, h, hms⟩ => ⟨h, t, ht, hms⟩
            · exact fun ⟨h, t, ht, hms⟩ => ⟨t, ht, h, hms⟩
      _ ↔ _ := by
          simp only [List.forall₂_cons_left_iff]
          constructor
          · rintro ⟨key, hkey, rfl, t, ht, ms, hms, hsteps⟩
            exact ⟨rfl, (key, m.2) :: ms, ⟨_, _, ⟨hkey, rfl, hk, hv⟩, hms, rfl⟩, .cons ht hsteps⟩
          · rintro ⟨rfl, _, ⟨⟨key, es⟩, ms, hm, hms, rfl⟩, hsteps⟩
            obtain ⟨t, ht, hsteps⟩ := steps_cons.1 hsteps
            exact ⟨key, hm.key, rfl, t, hm.value ▸ ht, ms, hms, hsteps⟩

/-- A mapping is decoded entry by entry, and what is known after the last one is its value. -/
theorem accepts_mapping (hd : d.Whole) (expected : String)
    (hmember : ∀ s key, (member s key).Accepts d s (T s key)) (s : σ) :
    Accepts d (mapping expected member s) fun es t =>
      ∃ ms, d.IsMapping es ms ∧ Steps T ms s t := by
  let Q (node : Events) (t : σ) : Prop :=
    (∃ e anchor p, node = [e] ∧ e.value = .scalar anchor p ∧ p.text = [] ∧ p.style = .plain ∧
      t = s) ∨
    ∃ first last anchor entries ms, node = first :: (pieces entries ++ [last]) ∧
      first.value = .openMapping anchor ∧ last.value = .closeMapping ∧
      List.Forall₂ d.IsEntry entries ms ∧ Steps T ms s t
  refine (Reads.ofNode (P := Q) ?_ hd).congr fun es t => ?_
  · intro e inner keys rest t rest' hnode _ hlength
    cases he : e.value with
    | scalar anchor p =>
      obtain rfl := hnode.eq_nil_of_scalar he
      have hQ : Q [e] t ↔ (p.text = [] ∧ p.style = .plain) ∧ t = s := by
        simp [Q, he, and_assoc]
      simp only [he, hQ, List.nil_append]
      split
      · rename_i hp
        simp [hp, and_comm, eq_comm]
      · rename_i hp
        simp [hp, refuse]
    | openMapping anchor =>
      have hread {entries : List (Events × Events)} {last : Placed Event}
          (hinner : inner = pieces entries ++ [last]) (hlast : last.value = .closeMapping)
          (hkeys : ∀ m ∈ entries, IsNode m.1) (hvalues : ∀ m ∈ entries, IsNode m.2) :
          entriesFrom member e.place d.events s d keys (inner ++ rest) = .ok (t, rest') ↔
            rest' = rest ∧ ∃ ms, List.Forall₂ d.IsEntry entries ms ∧ Steps T ms s t := by
        have hpieces : (pieces entries).length < d.events.length := by
          simp only [hinner, List.length_cons, List.length_append, List.length_nil] at hlength
          omega
        have hbound := Nat.lt_of_le_of_lt (length_le_length_pieces hkeys) hpieces
        have hle (m : Events × Events) (hm : m ∈ entries) :=
          Nat.le_trans (length_le_pieces hm) (Nat.le_of_lt hpieces)
        rw [hinner, List.append_assoc]
        exact entriesFrom_eq_ok_iff hd hmember hlast hkeys hvalues hle hbound
      simp only [he]
      constructor
      · intro hok
        obtain ⟨entries, last, hinner, hlast, hkeys, hvalues⟩ := hnode.exists_entries he
        obtain ⟨hrest, ms, hms, hsteps⟩ := (hread hinner hlast hkeys hvalues).1 hok
        exact ⟨hrest, .inr ⟨e, last, anchor, entries, ms, by rw [hinner], he, hlast, hms, hsteps⟩⟩
      · rintro ⟨rfl, ⟨_, _, _, ⟨⟩, he', -⟩ | ⟨_, last, _, entries, ms, ⟨⟩, _, hlast, hms, hsteps⟩⟩
        · simp [he] at he'
        · have hentries := forall_isNode hms
          exact (hread rfl hlast (fun m hm => (hentries m hm).1) fun m hm => (hentries m hm).2).2
            ⟨rfl, ms, hms, hsteps⟩
    | _ => simp [Q, refuse, he]
  · constructor
    · rintro ⟨_, hmeans, ⟨e, anchor, p, rfl, he, htext, hstyle, rfl⟩ |
        ⟨first, last, anchor, entries, ms, rfl, hfirst, hlast, hms, hsteps⟩⟩
      · exact ⟨[], .empty ⟨e, anchor, hmeans, he⟩ htext hstyle, .nil t⟩
      · exact ⟨ms, .entries hmeans hfirst hlast hms, hsteps⟩
    · rintro ⟨ms, ⟨⟨e, anchor, hmeans, he⟩, htext, hstyle⟩ | ⟨hmeans, hfirst, hlast, hms⟩, hsteps⟩
      · exact ⟨_, hmeans, .inl ⟨e, anchor, _, rfl, he, htext, hstyle, steps_nil.1 hsteps⟩⟩
      · exact ⟨_, hmeans, .inr ⟨_, _, _, _, ms, rfl, hfirst, hlast, hms, hsteps⟩⟩

/-! ## Entries that may be left out -/

/-- What an entry with some key says, if there is one; no other entry has this key. -/
inductive Given (name : String) (P : Events → α → Prop) (ms : List (String × Events)) :
    Option α → Prop where
  | absent (h : ∀ m ∈ ms, m.1 ≠ name) : Given name P ms none
  | present {before after : List (String × Events)} {es : Events} {a : α}
    (hms : ms = before ++ (name, es) :: after) (hbefore : ∀ m ∈ before, m.1 ≠ name)
    (hafter : ∀ m ∈ after, m.1 ≠ name) (h : P es a) : Given name P ms (some a)

variable {name key : String} {o : Option α}

theorem given_nil : Given name P [] o ↔ o = none := by
  constructor
  · rintro (_ | ⟨hms, -⟩)
    · rfl
    · simp at hms
  · rintro rfl
    exact .absent (by simp)

/-- An entry with another key does not matter. -/
theorem given_cons_of_ne (hkey : key ≠ name) :
    Given name P ((key, es) :: ms) o ↔ Given name P ms o := by
  constructor
  · rintro (h | ⟨hms, hbefore, hafter, h⟩)
    · exact .absent (List.forall_mem_cons.1 h).2
    · obtain ⟨-, hfirst⟩ | ⟨before, rfl, rfl⟩ := List.cons_eq_append_iff.1 hms
      · exact absurd (Prod.mk.inj (List.cons.inj hfirst).1).1.symm hkey
      · exact .present rfl (List.forall_mem_cons.1 hbefore).2 hafter h
  · rintro (h | ⟨rfl, hbefore, hafter, h⟩)
    · exact .absent (List.forall_mem_cons.2 ⟨hkey, h⟩)
    · exact .present (List.cons_append ..).symm (List.forall_mem_cons.2 ⟨hkey, hbefore⟩) hafter h

/-- An entry with the key is the only one. -/
theorem given_cons_self : Given name P ((name, es) :: ms) o ↔
    ∃ a, P es a ∧ o = some a ∧ ∀ m ∈ ms, m.1 ≠ name := by
  constructor
  · rintro (h | ⟨hms, hbefore, hafter, h⟩)
    · exact absurd rfl (h _ List.mem_cons_self)
    · obtain ⟨rfl, ⟨⟩⟩ | ⟨before, rfl, -⟩ := List.cons_eq_append_iff.1 hms
      · exact ⟨_, h, rfl, hafter⟩
      · exact absurd rfl (hbefore _ List.mem_cons_self)
  · rintro ⟨a, h, rfl, hms⟩
    exact .present (List.nil_append _).symm (by simp) hms h

/-- What an entry does to what is known of a key. -/
def Column (name : String) (P : Events → α → Prop) (o : Option α) (key : String) (es : Events)
    (o' : Option α) : Prop :=
  if key = name then o = none ∧ ∃ a, P es a ∧ o' = some a else o' = o

@[simp] theorem column_self {o' : Option α} :
    Column name P o name es o' ↔ o = none ∧ ∃ a, P es a ∧ o' = some a := by simp [Column]

@[simp] theorem column_of_ne {o' : Option α} (hkey : key ≠ name) :
    Column name P o key es o' ↔ o' = o := by simp [Column, hkey]

/-- After a key has been read, it does not come again. -/
theorem steps_column_some {a : α} :
    Steps (Column name P) ms (some a) o ↔ o = some a ∧ ∀ m ∈ ms, m.1 ≠ name := by
  induction ms with
  | nil => simp [steps_nil]
  | cons m ms ih =>
    obtain ⟨key, es⟩ := m
    by_cases hkey : key = name
    · subst hkey
      simp [steps_cons]
    · simp [steps_cons, hkey, ih]

/-- Step by step, a key is found if it is there just once, and not found if it is not there. -/
theorem steps_column : Steps (Column name P) ms none o ↔ Given name P ms o := by
  induction ms with
  | nil => rw [steps_nil, given_nil]
  | cons m ms ih =>
    obtain ⟨key, es⟩ := m
    rw [steps_cons]
    by_cases hkey : key = name
    · subst hkey
      simp [given_cons_self, steps_column_some]
    · simp [hkey, given_cons_of_ne, ih]

/-- Steps may be told of anything that stands for what is known. -/
theorem steps_image {R : α → String → Events → α → Prop} {f : σ → α} (hf : Function.Bijective f)
    (hstep : ∀ s key es t, T s key es t ↔ R (f s) key es (f t)) :
    Steps T ms s t ↔ Steps R ms (f s) (f t) := by
  induction ms generalizing s with
  | nil => simp only [steps_nil, hf.injective.eq_iff]
  | cons m ms ih => simp only [steps_cons, hstep, ih, hf.surjective.exists]

/-- Steps of a pair are steps of its two parts. -/
theorem steps_prod {R : α → String → Events → α → Prop} {S : β → String → Events → β → Prop}
    {p q : α × β} :
    Steps (fun p key es q => R p.1 key es q.1 ∧ S p.2 key es q.2) ms p q ↔
      Steps R ms p.1 q.1 ∧ Steps S ms p.2 q.2 := by
  induction ms generalizing p with
  | nil => simp only [steps_nil, Prod.ext_iff]
  | cons m ms ih =>
    simp only [steps_cons, ih, Prod.exists]
    constructor
    · rintro ⟨a, b, ⟨hR, hS⟩, hfirst, hsecond⟩
      exact ⟨⟨a, hR, hfirst⟩, b, hS, hsecond⟩
    · rintro ⟨⟨a, hR, hfirst⟩, b, hS, hsecond⟩
      exact ⟨a, b, ⟨hR, hS⟩, hfirst, hsecond⟩

/-- A key that may occur once is read like any other node. -/
theorem accepts_once {γ : Type} {decoder : Decoder γ} {R : Events → γ → Prop} {found : Option γ}
    {put : γ → σ} (h : Accepts d decoder R) : (Member.once found decoder put).Accepts d s fun es t =>
      found = none ∧ ∃ a, R es a ∧ put a = t := by
  cases found with
  | some a => exact fun es t h => nomatch h.1
  | none => exact (h.map put).congr fun es t => by simp

/-- A record is decoded from a mapping. It is enough to tell its steps on what stands for it. -/
theorem accepts_record {R : α → String → Events → α → Prop}
    {G : List (String × Events) → α → Prop} {f : σ → α} (hd : d.Whole) (expected : String)
    (hf : Function.Bijective f) (s : σ) (hR : ∀ ms a, Steps R ms (f s) a ↔ G ms a)
    (hmember : ∀ s key, (member s key).Accepts d s fun es t => R (f s) key es (f t)) :
    Accepts d (mapping expected member s) fun es t => ∃ ms, d.IsMapping es ms ∧ G ms (f t) := by
  refine (accepts_mapping hd expected hmember s).congr fun es t => ?_
  refine exists_congr fun ms => and_congr_right fun _ => ?_
  rw [steps_image hf fun _ _ _ _ => Iff.rfl, hR]

end Decoder

/-! ## Texts -/

namespace Document

/-- The node that a document stands for. One without events stands for an empty scalar. -/
def root (d : Document) : Events :=
  if d.events = [] then [⟨.scalar none .empty, .first⟩] else d.events

theorem Whole.isNode_root (hd : d.Whole) : IsNode d.root := by
  unfold root
  split
  · exact .scalar rfl
  · rename_i h
    exact hd.resolve_left h

theorem length_root_le (d : Document) : d.root.length ≤ d.events.length + 1 := by
  unfold root
  split <;> simp

/-- The value of a text is the one that its only document stands for, if it can be read. -/
theorem decode_eq_ok_iff {decoder : Decoder α} {P : Events → α → Prop} {a : α}
    (hd : d.problem = none → d.Whole) (h : d.Whole → decoder.Accepts d P) :
    d.decode decoder = .ok a ↔ d.problem = none ∧ d.goesOn = false ∧ P d.root a := by
  unfold decode
  rw [bind_eq_ok]
  cases hproblem : d.problem with
  | some problem => simp
  | none =>
    have hwhole := hd hproblem
    have hroot (b : α) (left : Events) : decoder d [] d.root = .ok (b, left) ↔
        left = [] ∧ P d.root b := by
      simpa using h hwhole [] d.root [] b left hwhole.isNode_root d.length_root_le
    unfold root at hroot ⊢
    simp only [and_true, Prod.exists, hroot]
    cases d.goesOn <;> simp

end Document

end CouplingMap.Yaml
