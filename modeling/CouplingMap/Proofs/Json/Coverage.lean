import CouplingMap.Proofs.Json.Complete
import CouplingMap.Proofs.Json.Widening

/-!
# Every text that is read may be widened

A decoder keeps a relation of texts if it gets the same from related ones. It covers the relation if
every text that it gets something from is related to itself: such a text follows the grammar, and
there is nothing further in it yet.

* `Decoder.Covers`: there is one rule for each way to make a decoder.
* `Decoder.Covers.ofText`: whole texts.
-/

namespace CouplingMap.Json

variable {cs mid rest : List Char} {first : Bool}

/-- Items that stay as they are. -/
theorem ItemsWiden.itemsText {i : Nat} {cs' : List Char}
    (h : ItemsWiden (fun _ => Same) i cs cs') : ItemsText (i == 0) cs := by
  induction h with
  | close hb => exact .close hb
  | item ho hv h ih =>
    obtain ⟨hv⟩ := hv
    exact .item ho hv ih

namespace Decoder

variable {α β : Type} {d : Decoder α} {e : Decoder β} {a : α} {R S : TextRel} {Q : Nat → TextRel}
  {bound r : List Char}

/-- In front of what a decoder leaves there is a text that is related to itself. -/
def Covers (d : Decoder α) (R : TextRel) : Prop :=
  ∀ ⦃cs r : List Char⦄ ⦃a : α⦄, d.fromText cs = .ok (a, r) →
    ∃ b v, Blank b ∧ R v v ∧ cs = b ++ (v ++ r)

/-! ### Single values -/

theorem covers_number {expected : String} {accept : Number → Except Mismatch α} :
    (number expected accept).Covers Same := by
  intro cs r a h
  simp only [number] at h
  split at h
  · contradiction
  rename_i c tail hcs
  obtain ⟨b, hb, rfl⟩ := exists_blank_cons hcs
  split at h
  · obtain ⟨⟨n, _⟩, hread, h⟩ := bind_eq_ok.1 h
    obtain ⟨⟨t, _⟩, hscan, hnumber⟩ := bind_eq_ok.1 hread
    obtain ⟨n, -, ⟨⟩⟩ := bind_eq_ok.1 hnumber
    obtain ⟨ns, hns, heq⟩ := numberText_of_scan hscan
    dsimp only at h
    split at h
    · cases h
      exact ⟨b, ns, hb, .text (.number hns), by rw [heq]⟩
    · contradiction
  · contradiction

theorem covers_uint32 : uint32.Covers Same := covers_number

theorem covers_double : double.Covers Same := covers_number

theorem covers_string : string.Covers Same := by
  intro cs r a h
  simp only [string] at h
  split at h
  · contradiction
  rename_i c tail hcs
  obtain ⟨b, hb, rfl⟩ := exists_blank_cons hcs
  split at h
  · rename_i hc
    obtain ⟨ks, hks, rfl⟩ := Quoted.exists_names h
    exact ⟨b, _, hb, .text (.string hks.stringText), by rw [hc]; rfl⟩
  · contradiction

/-! ### Lists and pairs -/

theorem exists_blank_bracket {inner : Reader α} (h : opened inner cs = .ok (a, r)) :
    ∃ b tail, Blank b ∧ inner tail = .ok (a, r) ∧ cs = b ++ '[' :: tail := by
  unfold opened at h
  split at h
  · contradiction
  rename_i c tail hcs
  obtain ⟨b, hb, rfl⟩ := exists_blank_cons hcs
  split at h
  · rename_i hc
    exact ⟨b, tail, hb, h, by rw [hc]⟩
  · contradiction

theorem Covers.part (hd : d.Covers R) (h : d.part cs = .ok (a, r)) :
    ∃ b v, Blank b ∧ R v v ∧ cs = b ++ (v ++ r) :=
  hd (part_eq_ok.1 h)

theorem covers_itemsFrom {i : Nat} {done as : List α} (hd : d.Covers R)
    (h : itemsFrom d.part bound (i == 0) done cs = .ok (as, r)) :
    ∃ ds, ItemsWiden (fun _ => R) i ds ds ∧ cs = ds ++ r := by
  induction bound generalizing i done cs with
  | nil => contradiction
  | cons c bound ih =>
    obtain ⟨next, hnext, h⟩ := bind_eq_ok.1 h
    cases next with
    | close rest =>
      cases h
      obtain ⟨b, hb, rfl⟩ := exists_blank_cons (nextItem_eq_close.1 hnext)
      exact ⟨_, .close hb, by simp⟩
    | more mid =>
      obtain ⟨⟨a, _⟩, hpart, hleft⟩ := bind_eq_ok.1 h
      obtain ⟨o, ho, rfl⟩ := exists_opening_item hnext
      obtain ⟨b, v, hb, hv, rfl⟩ := hd.part hpart
      obtain ⟨ds, hds, rfl⟩ := ih (i := i + 1) hleft
      exact ⟨_, .item (ho.append_blank hb) hv hds, by simp⟩

theorem Covers.list (hd : d.Covers R) : (list d).Covers (Bracketed fun _ => R) := by
  intro cs r as h
  obtain ⟨b, tail, hb, hitems, rfl⟩ := exists_blank_bracket h
  obtain ⟨ds, hds, rfl⟩ := covers_itemsFrom (i := 0) hd hitems
  exact ⟨b, _, hb, .items hds, rfl⟩

theorem Covers.itemText {first : Bool} (hd : d.Covers R)
    (h : d.itemText first cs = .ok (a, r)) :
    ∃ o v, Opening first o ∧ R v v ∧ cs = o ++ (v ++ r) := by
  obtain ⟨next, hnext, h⟩ := bind_eq_ok.1 h
  cases next with
  | close rest => contradiction
  | more mid =>
    obtain ⟨b, v, hb, hv, rfl⟩ := hd.part h
    obtain ⟨o, ho, rfl⟩ := exists_opening_item hnext
    exact ⟨_, v, ho.append_blank hb, hv, by simp⟩

theorem Covers.pair (title lengthTitle : String) (hd : d.Covers R) (he : e.Covers S) :
    (pair title lengthTitle d e).Covers (Bracketed (inOrder R S)) := by
  intro cs r p h
  obtain ⟨b, tail, hb, hread, rfl⟩ := exists_blank_bracket h
  obtain ⟨⟨a, _⟩, hfirst, hread⟩ := bind_eq_ok.1 hread
  obtain ⟨⟨c, _⟩, hsecond, hread⟩ := bind_eq_ok.1 hread
  obtain ⟨⟨⟨⟩, _⟩, hclose, ⟨⟩⟩ := bind_eq_ok.1 hread
  obtain ⟨o, v, ho, hv, rfl⟩ := hd.itemText hfirst
  obtain ⟨o', w, ho', hw, rfl⟩ := he.itemText hsecond
  obtain ⟨b', hb', rfl⟩ := exists_blank_cons (closeList_eq_ok.1 hclose)
  have hitems : ItemsWiden (inOrder R S) 0 _ _ := .item ho hv (.item ho' hw (.close hb'))
  exact ⟨b, _, hb, .items hitems, by simp⟩

/-- A list whose items stay as they are stays as it is. -/
theorem Covers.of_bracketed (h : d.Covers (Bracketed fun _ => Same)) : d.Covers Same := by
  intro cs r a hread
  obtain ⟨b, v, hb, ⟨hv⟩, rfl⟩ := h hread
  exact ⟨b, _, hb, .text (.list hv.itemsText), rfl⟩

theorem Covers.list_same (hd : d.Covers Same) : (Decoder.list d).Covers Same :=
  .of_bracketed hd.list

theorem Covers.pair_same (title lengthTitle : String) (hd : d.Covers Same) (he : e.Covers Same) :
    (Decoder.pair title lengthTitle d e).Covers Same := by
  have hpair := hd.pair title lengthTitle he
  rw [inOrder_same] at hpair
  exact .of_bracketed hpair

/-! ### Decoders made of one other -/

theorem Covers.orNull (h : d.Covers (Bracketed Q)) : (orNull d).Covers (Nullable Q) := by
  intro cs r a hread
  simp only [Decoder.orNull] at hread
  split at hread
  · contradiction
  rename_i c tail hcs
  obtain ⟨b, hb, rfl⟩ := exists_blank_cons hcs
  split at hread
  · rename_i hc
    obtain ⟨⟨⟨⟩, _⟩, hword, ⟨⟩⟩ := map_eq_ok.1 hread
    exact ⟨b, _, hb, .null, by rw [hc, word_eq_ok.1 hword]; rfl⟩
  · obtain ⟨⟨a, _⟩, hinner, ⟨⟩⟩ := map_eq_ok.1 hread
    obtain ⟨b', v, hb', hv, heq⟩ := h hinner
    exact ⟨_, v, hb.append hb', .list hv, by rw [heq, List.append_assoc]⟩

theorem Covers.check (rule : α → Except String β) (h : d.Covers R) : (check rule d).Covers R := by
  intro cs r c hread
  obtain ⟨⟨a, _⟩, hread, hrule⟩ := bind_eq_ok.1 hread
  dsimp only at hrule
  split at hrule
  · cases hrule
    exact h hread
  · contradiction

theorem Covers.map (f : α → β) (h : d.Covers R) : (map f d).Covers R := by
  intro cs r c hread
  obtain ⟨⟨a, _⟩, hinner, ⟨⟩⟩ := map_eq_ok.1 hread
  exact h hinner

/-! ### Records -/

variable {f : Field α} {g : Field β} {found found' : Option α × Option β}

/-- What follows the name of a member: a colon, and a value whose text is in `P`. -/
def Valued (P : List Char → Prop) (cs rest : List Char) : Prop :=
  ∃ a b v, Blank a ∧ Blank b ∧ P v ∧ cs = a ++ ':' :: (b ++ (v ++ rest))

/-- The title of a member, and its value. -/
theorem Valued.title {P : List Char → Prop} {k ks : List Char} (h : Valued P cs rest)
    (hk : Names k ks) : ∃ t v, Title (Names k) t ∧ P v ∧ '"' :: (ks ++ cs) = t ++ (v ++ rest) := by
  obtain ⟨a, b, v, ha, hb, hv, rfl⟩ := h
  exact ⟨_, v, .name hk ha hb, hv, by simp⟩

theorem Covers.valued (hd : d.Covers R) (h : d.valued cs = .ok (a, r)) :
    Valued (fun v => R v v) cs r := by
  obtain ⟨⟨⟨⟩, mid⟩, hcolon, hpart⟩ := bind_eq_ok.1 h
  obtain ⟨b, hb, rfl⟩ := exists_blank_colon hcolon
  obtain ⟨b', v, hb', hv, rfl⟩ := hd.part hpart
  exact ⟨b, b', v, hb, hb', hv, rfl⟩

/-- A member of a record is read as a field, or passed over. -/
theorem valued_of_recordMember {name : String} (hf : f.decoder.Covers R) (hg : g.decoder.Covers S)
    (h : recordMember f g found name cs = .ok (found', r)) :
    (name = f.name ∧ Valued (fun v => R v v) cs r) ∨
    (name = g.name ∧ Valued (fun v => S v v) cs r) ∨
    (name ≠ f.name ∧ name ≠ g.name ∧ Valued ValueText cs r) := by
  by_cases hleft : name = f.name
  · subst hleft
    rw [recordMember_left] at h
    split at h
    · contradiction
    obtain ⟨⟨v, _⟩, hvalue, ⟨⟩⟩ := map_eq_ok.1 h
    exact .inl ⟨rfl, hf.valued hvalue⟩
  by_cases hright : name = g.name
  · subst hright
    rw [recordMember_right (Ne.symm hleft)] at h
    split at h
    · contradiction
    obtain ⟨⟨v, _⟩, hvalue, ⟨⟩⟩ := map_eq_ok.1 h
    exact .inr (.inl ⟨rfl, hg.valued hvalue⟩)
  · rw [recordMember, if_neg hleft, if_neg hright] at h
    obtain ⟨⟨⟨⟩, mid⟩, hcolon, h⟩ := bind_eq_ok.1 h
    obtain ⟨⟨⟨⟩, _⟩, hskip, ⟨⟩⟩ := bind_eq_ok.1 h
    obtain ⟨a, ha, rfl⟩ := exists_blank_colon hcolon
    obtain ⟨b, v, hb, hv, rfl⟩ := valueText_of_skip hskip
    exact .inr (.inr ⟨hleft, hright, a, b, v, ha, hb, hv, rfl⟩)

theorem covers_membersFrom (hf : f.decoder.Covers R) (hg : g.decoder.Covers S)
    (h : membersFrom Quoted.read (recordMember f g) bound first found cs = .ok (found', r)) :
    ∃ ms, MembersWiden f.name g.name R S first first ms ms ∧ cs = ms ++ r := by
  induction bound generalizing first found cs with
  | nil => contradiction
  | cons c bound ih =>
    obtain ⟨next, hnext, h⟩ := bind_eq_ok.1 h
    cases next with
    | close rest =>
      cases h
      obtain ⟨b, hb, rfl⟩ := exists_blank_cons (nextMember_eq_close.1 hnext)
      exact ⟨_, .close hb hb, by simp⟩
    | more mid =>
      obtain ⟨⟨name, tail⟩, hname, hbehind⟩ := bind_eq_ok.1 h
      obtain ⟨⟨found₁, rest⟩, hmember, hleft⟩ := bind_eq_ok.1 hbehind
      obtain ⟨o, ho, rfl⟩ := exists_opening_member hnext
      obtain ⟨ks, hks, rfl⟩ := Quoted.exists_names hname
      obtain ⟨ms, hms, rfl⟩ := ih hleft
      have hne {x : String} (hx : name ≠ x) : name.toList ≠ x.toList :=
        fun heq => hx (String.toList_injective heq)
      rcases valued_of_recordMember hf hg hmember with
        ⟨rfl, hvalue⟩ | ⟨rfl, hvalue⟩ | ⟨hname, hname', hvalue⟩
      all_goals
        obtain ⟨t, v, ht, hv, heq⟩ := hvalue.title hks
        rw [heq]
      · exact ⟨_, .left ho ho ht hv hms, by simp⟩
      · exact ⟨_, .right ho ho ht hv hms, by simp⟩
      · exact ⟨_, .other (hne hname) (hne hname') ho ho ht hv hms, by simp⟩

/-- A field is the next item of a list, or the list ends before it. -/
theorem Covers.fieldText {ended : Bool} (hf : f.decoder.Covers R)
    (h : f.itemText first cs = .ok (a, ended, mid)) :
    (ended = true ∧ ∃ b, Blank b ∧ cs = b ++ ']' :: mid) ∨
    (ended = false ∧ ∃ o v, Opening first o ∧ R v v ∧ cs = o ++ (v ++ mid)) := by
  obtain ⟨next, hnext, h⟩ := bind_eq_ok.1 h
  cases next with
  | close rest =>
    obtain ⟨a, -, ⟨⟩⟩ := map_eq_ok.1 h
    exact .inl ⟨rfl, exists_blank_cons (nextItem_eq_close.1 hnext)⟩
  | more mid =>
    obtain ⟨⟨a, _⟩, hpart, ⟨⟩⟩ := map_eq_ok.1 h
    obtain ⟨o, ho, rfl⟩ := exists_opening_item hnext
    obtain ⟨b, v, hb, hv, rfl⟩ := hf.part hpart
    exact .inr ⟨rfl, _, v, ho.append_blank hb, hv, by simp⟩

theorem covers_recordItems {p : α × β} (hf : f.decoder.Covers R) (hg : g.decoder.Covers S)
    (h : recordItems f g cs = .ok (p, r)) :
    ∃ ds, ItemsWiden (inOrder R S) 0 ds ds ∧ cs = ds ++ r := by
  obtain ⟨⟨a, ended, mid⟩, hfirst, hleft⟩ := bind_eq_ok.1 h
  rcases hf.fieldText hfirst with ⟨rfl, b, hb, rfl⟩ | ⟨rfl, o, v, ho, hv, rfl⟩
  · obtain ⟨c, -, ⟨⟩⟩ := map_eq_ok.1 hleft
    exact ⟨_, .close hb, by simp⟩
  obtain ⟨⟨c, ended, mid⟩, hsecond, hclosed⟩ := bind_eq_ok.1 hleft
  rcases hg.fieldText hsecond with ⟨rfl, b, hb, rfl⟩ | ⟨rfl, o', w, ho', hw, rfl⟩
  · cases hclosed
    exact ⟨_, .item (i := 0) ho hv (.close hb), by simp⟩
  · obtain ⟨⟨⟨⟩, _⟩, hclose, ⟨⟩⟩ := bind_eq_ok.1 hclosed
    obtain ⟨b, hb, rfl⟩ := exists_blank_cons (closeList_eq_ok.1 hclose)
    exact ⟨_, .item (i := 0) ho hv (.item (i := 1) ho' hw (.close hb)), by simp⟩

theorem Covers.record (title : String) (hf : f.decoder.Covers R) (hg : g.decoder.Covers S) :
    (record title f g).Covers (Recorded f.name g.name R S) := by
  intro cs r p h
  simp only [Decoder.record] at h
  split at h
  · contradiction
  rename_i c tail hcs
  obtain ⟨b, hb, rfl⟩ := exists_blank_cons hcs
  split at h
  · rename_i hc
    obtain ⟨ds, hds, rfl⟩ := covers_recordItems hf hg h
    exact ⟨b, _, hb, .list (.items hds), by rw [hc]; rfl⟩
  split at h
  · rename_i hc
    obtain ⟨⟨found, _⟩, hmembers, hsettle⟩ := bind_eq_ok.1 h
    obtain ⟨a, -, hsettle⟩ := bind_eq_ok.1 hsettle
    obtain ⟨c, -, ⟨⟩⟩ := bind_eq_ok.1 hsettle
    obtain ⟨ms, hms, rfl⟩ := covers_membersFrom hf hg hmembers
    exact ⟨b, _, hb, .object hms, by rw [hc]; rfl⟩
  · contradiction

/-! ### Whole texts -/

/-- A whole text that a decoder gets something from is related to itself. -/
theorem Covers.ofText {t : String} (hd : d.Covers R) (h : d.ofText t = .ok a) :
    Surrounded R t.toList t.toList := by
  obtain ⟨⟨a', rest⟩, hvalue, hblank⟩ := bind_eq_ok.1 h
  obtain ⟨b, v, hb, hv, heq⟩ := hd hvalue
  dsimp only at heq hblank
  split at hblank
  · rename_i hrest
    obtain ⟨c, hc, hcs⟩ := exists_blank rest
    rw [hrest, List.append_nil] at hcs
    subst hcs
    rw [heq]
    exact .value hb hb hc hc hv
  · contradiction

end Decoder

end CouplingMap.Json
