import CouplingMap.Proofs.Yaml.Node

/-!
# What the reader of tokens writes

A reader that succeeds has written the events that its name promises: a node, the items of a
sequence up to its end, or the entries of a mapping. So a document without a problem is one node.

* `Builder.Writes`: what a reader adds to the events if it succeeds, with a rule for each way to
  build readers.
* `writes_node`: reading a node writes a node; the induction is on the bound of its depth.
* `Document.whole_ofText`: a document that can be read to its end has no events, or those of a node.
-/

namespace CouplingMap.Yaml

namespace Builder

variable {α β : Type} {b : Builder α} {f : α → Builder β} {P Q : Events → Prop}

/-- A reader adds events with a property if it succeeds. -/
def Writes (b : Builder α) (P : Events → Prop) : Prop :=
  ∀ s a s', b.run.run s = (.ok a, s') → ∃ es, s'.events = es.reverse ++ s.events ∧ P es

/-- A reader adds no events. -/
abbrev Quiet (b : Builder α) : Prop := b.Writes (· = [])

theorem Writes.mono (h : b.Writes P) (hPQ : ∀ es, P es → Q es) : b.Writes Q := by
  intro s a s' hrun
  obtain ⟨es, hes, hP⟩ := h s a s' hrun
  exact ⟨es, hes, hPQ es hP⟩

theorem quiet_pure (a : α) : Quiet (pure a) := by
  intro s a' s' hrun
  cases hrun
  exact ⟨[], rfl, rfl⟩

theorem writes_throw (problem : Problem) : (throw problem : Builder α).Writes P := by
  intro s a s' hrun
  cases hrun

theorem bind_run {s s' : Source} {y : β} (h : (b >>= f).run.run s = (.ok y, s')) :
    ∃ x t, b.run.run s = (.ok x, t) ∧ (f x).run.run t = (.ok y, s') := by
  rw [ExceptT.run_bind, StateT.run_bind] at h
  rcases hb : b.run.run s with ⟨problem | x, t⟩
  · rw [hb] at h
    cases h
  · rw [hb] at h
    exact ⟨x, t, rfl, h⟩

/-- What two readers one after the other write. -/
theorem Writes.bind {R : Events → Prop} (h : b.Writes P) (hf : ∀ a, (f a).Writes Q)
    (hR : ∀ es fs, P es → Q fs → R (es ++ fs)) : (b >>= f).Writes R := by
  intro s y s' hrun
  obtain ⟨x, t, hb, hrest⟩ := bind_run hrun
  obtain ⟨es, hes, hP⟩ := h s x t hb
  obtain ⟨fs, hfs, hQ⟩ := hf x t y s' hrest
  exact ⟨es ++ fs, by simp [hfs, hes], hR es fs hP hQ⟩

/-- A reader that adds no events may come first. -/
theorem Quiet.bind (h : Quiet b) (hf : ∀ a, (f a).Writes P) : (b >>= f).Writes P :=
  Writes.bind h hf fun es fs hes hfs => by simpa [hes] using hfs

/-! ## Single steps -/

theorem quiet_get : Quiet (get : Builder Source) := by
  intro s a s' hrun
  cases hrun
  exact ⟨[], rfl, rfl⟩

theorem quiet_skip : Quiet skip := by
  intro s a s' hrun
  cases hrun
  exact ⟨[], rfl, rfl⟩

theorem quiet_define (name : List Char) : Quiet (define name) := by
  intro s a s' hrun
  cases hrun
  exact ⟨[], rfl, rfl⟩

theorem writes_write (e : Event) (p : Place) : (write e p).Writes (· = [⟨e, p⟩]) := by
  intro s a s' hrun
  cases hrun
  exact ⟨_, rfl, rfl⟩

theorem quiet_define? (name : Option (List Char)) : Quiet (define? name) := by
  cases name with
  | none => exact quiet_pure _
  | some name => exact Quiet.bind (quiet_define name) fun _ => quiet_pure _

theorem quiet_peek : Quiet peek := by
  refine Quiet.bind quiet_get fun s => ?_
  split
  · exact quiet_pure _
  · split
    · exact quiet_pure _
    · exact writes_throw _

theorem quiet_token : Quiet token := Quiet.bind quiet_peek fun _ => quiet_pure _

theorem quiet_place : Quiet place := Quiet.bind quiet_peek fun _ => quiet_pure _

theorem writes_refuse (fault : Fault) (start : Place) :
    (refuse fault start : Builder α).Writes P := Quiet.bind quiet_place fun _ => writes_throw _

theorem quiet_took (t : Token) : Quiet (took t) := by
  refine Quiet.bind quiet_token fun next => ?_
  split
  · exact Quiet.bind quiet_skip fun _ => quiet_pure _
  · exact quiet_pure _

theorem quiet_isNext (ts : List Token) : Quiet (isNext ts) :=
  Quiet.bind quiet_token fun _ => quiet_pure _

theorem writes_writeEmpty : writeEmpty.Writes IsNode :=
  Quiet.bind quiet_place fun p => (writes_write _ p).mono fun _ hes => hes ▸ .scalar rfl

theorem quiet_closes (first : Bool) (close : Token) (f : Fault) (start : Place) :
    Quiet (closes first close f start) := by
  refine Quiet.bind (quiet_isNext _) fun next => ?_
  split
  · exact quiet_pure _
  · split
    · exact quiet_pure _
    · refine Quiet.bind (quiet_took _) fun next => ?_
      split
      · exact quiet_isNext _
      · exact writes_refuse _ _

theorem quiet_anchor? : Quiet anchor? := by
  refine Quiet.bind quiet_token fun t => ?_
  split
  · exact Quiet.bind quiet_skip fun _ => quiet_pure _
  · exact quiet_pure _

theorem quiet_tag? : Quiet tag? := by
  refine Quiet.bind quiet_peek fun t => ?_
  split
  · exact Quiet.bind quiet_skip fun _ => quiet_pure _
  · exact quiet_pure _

theorem quiet_properties : Quiet properties := by
  refine Quiet.bind quiet_anchor? fun a => ?_
  split
  · exact Quiet.bind quiet_tag? fun _ => quiet_pure _
  · refine Quiet.bind quiet_tag? fun t => ?_
    split
    · exact Quiet.bind quiet_anchor? fun _ => quiet_pure _
    · exact quiet_pure _

theorem quiet_fullTag (handles : Handles) (start : Place) (tag : Option (TagName × Place)) :
    Quiet (fullTag handles start tag) := by
  unfold fullTag
  split
  · exact quiet_pure _
  · split
    · exact quiet_pure _
    · exact writes_throw _

theorem quiet_directives (bound : List (Placed Token)) (versioned : Bool) (handles : Handles) :
    Quiet (directives bound versioned handles) := by
  induction bound generalizing versioned handles with
  | nil => exact quiet_pure _
  | cons t bound ih =>
    refine Quiet.bind quiet_peek fun next => ?_
    split
    · split
      · exact writes_throw _
      · split
        · exact writes_throw _
        · exact Quiet.bind quiet_skip fun _ => ih _ _
    · split
      · exact writes_throw _
      · exact Quiet.bind quiet_skip fun _ => ih _ _
    · exact quiet_pure _

end Builder

open Builder

/-! ## Collections -/

/-- The items of a sequence with the event that closes it. -/
inductive IsItems : Events → Prop where
  | close {e : Placed Event} (h : e.value = .closeSequence) : IsItems [e]
  | item {es fs : Events} (h : IsNode es) (hfs : IsItems fs) : IsItems (es ++ fs)

/-- The entries of a mapping with the event that closes it. -/
inductive IsEntries : Events → Prop where
  | close {e : Placed Event} (h : e.value = .closeMapping) : IsEntries [e]
  | entry {ks vs fs : Events} (hk : IsNode ks) (hv : IsNode vs) (hfs : IsEntries fs) :
      IsEntries (ks ++ vs ++ fs)

/-- The value of an entry with the entries after it. -/
def IsValue (es : Events) : Prop := ∃ vs fs, es = vs ++ fs ∧ IsNode vs ∧ IsEntries fs

variable {e : Placed Event} {es : Events} {anchor : Option Nat} {n : NodeBuilder}

theorem IsItems.exists_items (h : IsItems es) : ∃ (items : List Events) (last : Placed Event),
    es = items.flatten ++ [last] ∧ last.value = .closeSequence ∧ ∀ item ∈ items, IsNode item := by
  induction h with
  | close h => exact ⟨[], _, rfl, h, by simp⟩
  | item h _ ih =>
    obtain ⟨items, last, rfl, hlast, hitems⟩ := ih
    exact ⟨_ :: items, last, by simp, hlast, List.forall_mem_cons.2 ⟨h, hitems⟩⟩

theorem IsEntries.exists_entries (h : IsEntries es) :
    ∃ (entries : List (Events × Events)) (last : Placed Event), es = pieces entries ++ [last] ∧
      last.value = .closeMapping ∧ (∀ m ∈ entries, IsNode m.1) ∧ ∀ m ∈ entries, IsNode m.2 := by
  induction h with
  | close h => exact ⟨[], _, rfl, h, by simp, by simp⟩
  | @entry ks vs fs hk hv _ ih =>
    obtain ⟨entries, last, rfl, hlast, hkeys, hvalues⟩ := ih
    exact ⟨(ks, vs) :: entries, last, by simp [pieces], hlast,
      List.forall_mem_cons.2 ⟨hk, hkeys⟩, List.forall_mem_cons.2 ⟨hv, hvalues⟩⟩

/-- The items of a sequence make a node with the event that opens it. -/
theorem IsItems.isNode (h : IsItems es) (he : e.value = .openSequence anchor) :
    IsNode (e :: es) := by
  obtain ⟨items, last, rfl, hlast, hitems⟩ := h.exists_items
  exact .sequence he hitems hlast

/-- The entries of a mapping make a node with the event that opens it. -/
theorem IsEntries.isNode (h : IsEntries es) (he : e.value = .openMapping anchor) :
    IsNode (e :: es) := by
  obtain ⟨entries, last, rfl, hlast, hkeys, hvalues⟩ := h.exists_entries
  exact .mapping he hkeys hvalues hlast

theorem IsEntries.of_isValue {ks : Events} (hk : IsNode ks) (h : IsValue es) :
    IsEntries (ks ++ es) := by
  obtain ⟨vs, fs, rfl, hv, hfs⟩ := h
  simpa using IsEntries.entry hk hv hfs

theorem writes_closeSequence (p : Place) : (write .closeSequence p).Writes IsItems :=
  (writes_write _ p).mono fun _ hes => hes ▸ .close rfl

theorem writes_closeMapping (p : Place) : (write .closeMapping p).Writes IsEntries :=
  (writes_write _ p).mono fun _ hes => hes ▸ .close rfl

/-- A node of one event. -/
theorem writes_single {e : Event} (p : Place) (h : IsNode [⟨e, p⟩]) : (write e p).Writes IsNode :=
  (writes_write e p).mono fun _ hes => hes ▸ h

section Walks

variable (hn : ∀ block indentless, (n block indentless).Writes IsNode)

include hn

theorem writes_blockNode (indentless : Bool) (ends : List Token) :
    (blockNode n indentless ends).Writes IsNode := by
  refine Quiet.bind (quiet_isNext ends) fun next => ?_
  split
  · exact writes_writeEmpty
  · exact hn _ _

theorem writes_blockItems (start : Place) (bound : List (Placed Token)) :
    (blockItems n start bound).Writes IsItems := by
  induction bound with
  | nil => exact writes_refuse _ _
  | cons t bound ih =>
    refine Quiet.bind (quiet_took _) fun next => ?_
    split
    · exact (writes_blockNode hn _ _).bind (fun _ => ih) fun _ _ => .item
    · refine Quiet.bind quiet_place fun p => Quiet.bind (quiet_took _) fun next => ?_
      split
      · exact writes_closeSequence p
      · exact writes_refuse _ _

theorem writes_indentlessItems (start : Place) (bound : List (Placed Token)) :
    (indentlessItems n start bound).Writes IsItems := by
  induction bound with
  | nil => exact writes_refuse _ _
  | cons t bound ih =>
    refine Quiet.bind (quiet_took _) fun next => ?_
    split
    · exact (writes_blockNode hn _ _).bind (fun _ => ih) fun _ _ => .item
    · exact Quiet.bind quiet_place writes_closeSequence

theorem writes_blockEntries (start : Place) (bound : List (Placed Token)) :
    (blockEntries n start bound).Writes IsEntries := by
  induction bound with
  | nil => exact writes_refuse _ _
  | cons t bound ih =>
    have hvalue (b : Builder Unit) (hb : b.Writes IsNode) :
        (b >>= fun _ => blockEntries n start bound).Writes IsValue :=
      hb.bind (fun _ => ih) fun vs fs hv hfs => ⟨vs, fs, rfl, hv, hfs⟩
    refine Quiet.bind (quiet_took _) fun next => ?_
    split
    · refine (writes_blockNode hn _ _).bind (Q := IsValue) (fun _ => ?_) fun _ _ => .of_isValue
      refine Quiet.bind (quiet_took _) fun next => ?_
      split
      · exact hvalue _ (writes_blockNode hn _ _)
      · exact hvalue _ writes_writeEmpty
    · refine Quiet.bind quiet_place fun p => Quiet.bind (quiet_took _) fun next => ?_
      split
      · exact writes_closeMapping p
      · exact writes_refuse _ _

theorem writes_flowNode (ends : List Token) : (flowNode n ends).Writes IsNode := by
  refine Quiet.bind (quiet_isNext ends) fun next => ?_
  split
  · exact writes_writeEmpty
  · exact hn _ _

theorem writes_flowValue (ends : List Token) : (flowValue n ends).Writes IsNode := by
  refine Quiet.bind (quiet_took _) fun next => ?_
  split
  · exact writes_flowNode hn _
  · exact writes_writeEmpty

theorem writes_flowPair : (flowPair n).Writes IsEntries := by
  have hrest (b : Builder Unit) (hb : b.Writes IsNode) :
      (b >>= fun _ => flowValue n [.comma, .closeSequence] >>= fun _ => place >>= fun p =>
        write .closeMapping p).Writes IsEntries := by
    refine hb.bind (Q := IsValue) (fun _ => ?_) fun _ _ => .of_isValue
    refine (writes_flowValue hn _).bind (fun _ => Quiet.bind quiet_place writes_closeMapping) ?_
    exact fun vs fs hv hfs => ⟨vs, fs, rfl, hv, hfs⟩
  refine Quiet.bind (quiet_isNext _) fun next => ?_
  split
  · rw [← bind_assoc]
    exact hrest _ (Writes.bind writes_writeEmpty (fun _ => quiet_skip) (by simp))
  · exact hrest _ (hn _ _)

theorem writes_flowItems (start : Place) (bound : List (Placed Token)) (first : Bool) :
    (flowItems n start bound first).Writes IsItems := by
  induction bound generalizing first with
  | nil => exact writes_refuse _ _
  | cons t bound ih =>
    have hitem (b : Builder Unit) (hb : b.Writes IsNode) :
        (b >>= fun _ => flowItems n start bound false).Writes IsItems :=
      hb.bind (fun _ => ih false) fun _ _ => .item
    refine Quiet.bind (quiet_closes _ _ _ _) fun next => ?_
    split
    · refine Quiet.bind quiet_place fun p => ?_
      exact (writes_closeSequence p).bind (fun _ => quiet_skip) (by simp)
    · refine Quiet.bind quiet_place fun p => Quiet.bind (quiet_took _) fun next => ?_
      split
      · rw [← bind_assoc]
        refine hitem _ ((writes_write _ p).bind (fun _ => writes_flowPair hn) ?_)
        rintro _ fs rfl hfs
        exact hfs.isNode rfl
      · exact hitem _ (hn _ _)

theorem writes_flowEntries (start : Place) (bound : List (Placed Token)) (first : Bool) :
    (flowEntries n start bound first).Writes IsEntries := by
  induction bound generalizing first with
  | nil => exact writes_refuse _ _
  | cons t bound ih =>
    have hvalue (b : Builder Unit) (hb : b.Writes IsNode) :
        (b >>= fun _ => flowEntries n start bound false).Writes IsValue :=
      hb.bind (fun _ => ih false) fun vs fs hv hfs => ⟨vs, fs, rfl, hv, hfs⟩
    refine Quiet.bind (quiet_closes _ _ _ _) fun next => ?_
    split
    · refine Quiet.bind quiet_place fun p => ?_
      exact (writes_closeMapping p).bind (fun _ => quiet_skip) (by simp)
    · refine Quiet.bind (quiet_took _) fun next => ?_
      split
      · exact (writes_flowNode hn _).bind (fun _ => hvalue _ (writes_flowValue hn _))
          fun _ _ => .of_isValue
      · exact (hn _ _).bind (fun _ => hvalue _ writes_writeEmpty) fun _ _ => .of_isValue

end Walks

/-! ## Nodes -/

theorem writes_mention (name : List Char) (p : Place) : (mention name p).Writes IsNode := by
  refine Quiet.bind quiet_get fun s => ?_
  split
  · exact writes_single p (.aliasOf rfl)
  · exact writes_throw _

/-- What opens a collection, with a walk over the rest of it, writes a node. -/
theorem writes_collection {name : Option (List Char)} {start : Place} {b : Builder Unit}
    {opening : Option Nat → Event} {P : Events → Prop} (hb : b.Writes P)
    (hP : ∀ anchor es, P es → IsNode (⟨opening anchor, start⟩ :: es)) :
    (define? name >>= fun anchor => write (opening anchor) start >>= fun _ => b).Writes IsNode := by
  refine Quiet.bind (quiet_define? name) fun anchor => (writes_write _ start).bind (fun _ => hb) ?_
  rintro _ es rfl hes
  exact hP anchor es hes

theorem writes_scalar (name : Option (List Char)) (s : Scalar) (start : Place) :
    (define? name >>= fun anchor => write (.scalar anchor s) start).Writes IsNode :=
  Quiet.bind (quiet_define? name) fun _ => writes_single start (.scalar rfl)

/-- Reading a node writes a node. -/
theorem writes_node (handles : Handles) (bound : List (Placed Token)) (block indentless : Bool) :
    (node handles bound block indentless).Writes IsNode := by
  induction bound generalizing block indentless with
  | nil => exact Quiet.bind quiet_place fun _ => writes_refuse _ _
  | cons t bound ih =>
    refine Quiet.bind quiet_place fun start => Quiet.bind quiet_token fun next => ?_
    split
    · exact Quiet.bind quiet_skip fun _ => writes_mention _ _
    · refine Quiet.bind quiet_properties fun props => Quiet.bind (quiet_fullTag _ _ _) fun tag => ?_
      refine Quiet.bind quiet_get fun s => Quiet.bind quiet_token fun next => ?_
      split
      · exact Quiet.bind quiet_skip fun _ => writes_scalar _ _ _
      · exact Quiet.bind quiet_skip fun _ => writes_collection (writes_flowItems ih _ _ _)
          fun _ _ h => h.isNode rfl
      · exact Quiet.bind quiet_skip fun _ => writes_collection (writes_flowEntries ih _ _ _)
          fun _ _ h => h.isNode rfl
      · exact Quiet.bind quiet_skip fun _ => writes_collection (writes_blockItems ih _ _)
          fun _ _ h => h.isNode rfl
      · exact Quiet.bind quiet_skip fun _ => writes_collection (writes_blockEntries ih _ _)
          fun _ _ h => h.isNode rfl
      · split
        · exact writes_collection (writes_indentlessItems ih _ _) fun _ _ h => h.isNode rfl
        · split
          · exact writes_scalar _ _ _
          · exact writes_refuse _ _

/-! ## Documents -/

/-- Reading a document writes a node, or nothing. -/
theorem writes_document (text : List (Placed Token)) :
    (document text).Writes fun es => es = [] ∨ IsNode es := by
  have hnode {b : Builder Unit} (hb : b.Writes IsNode) :
      (b >>= fun _ => took .documentEnd >>= fun _ => pure ()).Writes
        fun es => es = [] ∨ IsNode es :=
    hb.bind (fun _ => Quiet.bind (quiet_took _) fun _ => quiet_pure _) fun es fs hes hfs => by
      simp [hfs, hes]
  refine Quiet.bind quiet_token fun next => ?_
  split
  case h_1 => exact (quiet_pure _).mono fun es hes => .inl hes
  case h_4 => exact hnode (writes_node _ _ _ _)
  case h_2 | h_3 =>
    refine Quiet.bind (quiet_directives _ _ _) fun handles => Quiet.bind quiet_place fun p => ?_
    refine Quiet.bind (quiet_took _) fun next => ?_
    split
    · refine Quiet.bind quiet_token fun next => ?_
      split
      · exact hnode writes_writeEmpty
      · exact hnode (writes_node _ _ _ _)
    · exact hnode (writes_refuse _ _)

/-- The events of a document that can be read to its end are none, or those of a node. -/
theorem Document.whole_ofText {text : String} (h : (Document.ofText text).problem = none) :
    (Document.ofText text).events = [] ∨ IsNode (Document.ofText text).events := by
  unfold Document.ofText at h ⊢
  cases hrun : (document (Tokens.ofText text).items).run.run
    ⟨(Tokens.ofText text).items, (Tokens.ofText text).rest, [], []⟩ with
  | mk result source =>
    simp only [hrun] at h ⊢
    cases result with
    | error problem => contradiction
    | ok a =>
      obtain ⟨es, hes, hnode⟩ := writes_document _ _ _ _ hrun
      simpa [hes] using hnode

end CouplingMap.Yaml
