import CouplingMap.Proofs.Device.Network

/-!
# Edits of equal networks

Two networks are equal if they have the same nodes in the same order and the same numbers as
weights. No edit can tell them apart. An edit of connections looks at one pair of nodes only, and
changes at most its weight, so edits of different pairs may change places.

* `SameOutcome`: outcomes that are the same error, or answers that are related.
* `Network.EqualAt`, `Network.Equals`: networks that are equal as far as one pair is concerned, and
  for all pairs.
* `Network.Equals.edit`: one edit, with its error.
* `Network.Equals.run`: many edits of connections, in orders that differ in edits of different pairs
  only.
-/

namespace CouplingMap

/-! ## Equality as numbers -/

namespace Binary64

variable {x y z : Binary64}

theorem sameNumber_iff : x.sameNumber y = true ↔
    x.isNaN = false ∧ y.isNaN = false ∧ (x = y ∨ x.isZero = true ∧ y.isZero = true) := by
  simp [sameNumber, and_assoc]

theorem sameNumber_symm (h : x.sameNumber y = true) : y.sameNumber x = true := by
  rw [sameNumber_iff] at h ⊢
  obtain ⟨hx, hy, hxy⟩ := h
  exact ⟨hy, hx, hxy.imp Eq.symm And.symm⟩

theorem sameNumber_trans (h : x.sameNumber y = true) (h' : y.sameNumber z = true) :
    x.sameNumber z = true := by
  rw [sameNumber_iff] at h h' ⊢
  obtain ⟨hx, -, hxy⟩ := h
  obtain ⟨-, hz, hyz⟩ := h'
  refine ⟨hx, hz, ?_⟩
  rcases hxy with rfl | ⟨hzero, hzero'⟩
  · exact hyz
  · rcases hyz with rfl | ⟨-, hzero''⟩
    · exact .inr ⟨hzero, hzero'⟩
    · exact .inr ⟨hzero, hzero''⟩

end Binary64

/-! ## Outcomes -/

section Outcomes

variable {ε α β γ δ : Type} {R : α → β → Prop}

/-- The same error, or answers that are related. -/
inductive SameOutcome (R : α → β → Prop) : Except ε α → Except ε β → Prop where
  | error (x : ε) : SameOutcome R (.error x) (.error x)
  | ok {a : α} {b : β} (h : R a b) : SameOutcome R (.ok a) (.ok b)

theorem SameOutcome.imp {S : α → β → Prop} {x : Except ε α} {y : Except ε β}
    (h : SameOutcome R x y) (hS : ∀ a b, x = .ok a → y = .ok b → R a b → S a b) :
    SameOutcome S x y := by
  cases h with
  | error x => exact .error x
  | ok h => exact .ok (hS _ _ rfl rfl h)

/-- Functions may be applied to the answers first. -/
theorem sameOutcome_map {f : γ → α} {g : δ → β} {x : Except ε γ} {y : Except ε δ} :
    SameOutcome R (x.map f) (y.map g) ↔ SameOutcome (fun a b => R (f a) (g b)) x y := by
  constructor
  · intro h
    cases x <;> cases y <;> cases h
    · exact .error _
    · exact .ok ‹_›
  · rintro (x | h)
    · exact .error x
    · exact .ok h

end Outcomes

/-! ## Equal networks -/

/-- The pair of nodes that an edit connects or disconnects. -/
def Edit.pair? : Edit → Option (Node × Node)
  | .addNode _ => none
  | .removeNode _ => none
  | .connect a b => some (a, b)
  | .connectWeighted a b _ => some (a, b)
  | .disconnect a b => some (a, b)

namespace Network

variable {N M K N' : Network} {a b : Node} {p q : Node × Node} {x : Edit} {es es' : List Edit}

/-- Both have the same nodes, and a pair has the same number as weight in both, or none. -/
structure EqualAt (p : Node × Node) (N M : Network) : Prop where
  nodes : N.nodes = M.nodes
  weight : Option.Rel (fun v w => v.sameNumber w = true) (N.weight? p.1 p.2) (M.weight? p.1 p.2)

namespace EqualAt

theorem refl (p : Node × Node) (N : Network) : EqualAt p N N := by
  refine ⟨rfl, ?_⟩
  cases hw : N.weight? p.1 p.2 with
  | none => exact .none
  | some w => exact .some (Binary64.sameNumber_self (N.fits hw).finite)

theorem symm (h : EqualAt p N M) : EqualAt p M N := by
  obtain ⟨hnodes, hw⟩ := h
  refine ⟨hnodes.symm, ?_⟩
  generalize N.weight? p.1 p.2 = v, M.weight? p.1 p.2 = w at *
  cases hw with
  | none => exact .none
  | some hw => exact .some (Binary64.sameNumber_symm hw)

theorem trans (h : EqualAt p N M) (h' : EqualAt p M K) : EqualAt p N K := by
  obtain ⟨hnodes, hw⟩ := h
  obtain ⟨hnodes', hw'⟩ := h'
  refine ⟨hnodes.trans hnodes', ?_⟩
  generalize N.weight? p.1 p.2 = v, M.weight? p.1 p.2 = w, K.weight? p.1 p.2 = u at *
  cases hw with
  | none =>
    cases hw'
    exact .none
  | some hw =>
    cases hw' with
    | some hw' => exact .some (Binary64.sameNumber_trans hw hw')

/-- The pair has a weight in both or in none. -/
theorem eq_none_iff (h : EqualAt p N M) : N.weight? p.1 p.2 = none ↔ M.weight? p.1 p.2 = none := by
  obtain ⟨-, hw⟩ := h
  generalize N.weight? p.1 p.2 = v, M.weight? p.1 p.2 = w at *
  cases hw with
  | none => exact Iff.rfl
  | some hw => exact ⟨nofun, nofun⟩

end EqualAt

/-- Both have the same nodes and the same numbers as weights. -/
def Equals (N M : Network) : Prop := ∀ p, EqualAt p N M

theorem Equals.nodes (h : N.Equals M) : N.nodes = M.nodes := (h default).nodes

theorem equals_equivalence : Equivalence Equals :=
  ⟨fun N p => .refl p N, fun h p => (h p).symm, fun h h' p => (h p).trans (h' p)⟩

/-! ## Weights -/

/-- Only pairs of nodes that are listed have a weight. -/
theorem weight?_eq_none (h : a ∉ N.nodes ∨ b ∉ N.nodes) : N.weight? a b = none := by
  rw [Option.eq_none_iff_forall_ne_some]
  intro w hw
  exact h.elim (· (N.fits hw).source_mem) (· (N.fits hw).target_mem)

/-- The weight of a pair of nodes that are listed. -/
theorem weight_of_mem (ha : a ∈ N.nodes) (hb : b ∈ N.nodes) : N.weight a b =
    match N.weight? a b with
    | some w => .ok w
    | none => .error (.connectionNotFound a b) :=
  (if_neg (not_not.2 ha)).trans (if_neg (not_not.2 hb))

/-- A pair of nodes that are not both listed has no weight for the same reason. -/
theorem weight_of_notMem (hnodes : N.nodes = M.nodes) (h : a ∉ N.nodes ∨ b ∉ N.nodes) :
    ∃ x, N.weight a b = .error x ∧ M.weight a b = .error x := by
  unfold weight
  rw [hnodes] at h ⊢
  by_cases ha : a ∈ M.nodes
  · have hb := h.resolve_left (not_not.2 ha)
    exact ⟨_, (if_neg (not_not.2 ha)).trans (if_pos hb), (if_neg (not_not.2 ha)).trans (if_pos hb)⟩
  · exact ⟨_, if_pos ha, if_pos ha⟩

/-- Networks with the same nodes are equal as far as a pair is concerned just if they answer the
same when they are asked for its weight. -/
theorem equalAt_iff (hnodes : N.nodes = M.nodes) : EqualAt (a, b) N M ↔
    SameOutcome (fun v w => v.sameNumber w = true) (N.weight a b) (M.weight a b) := by
  by_cases hmem : a ∈ N.nodes ∧ b ∈ N.nodes
  · obtain ⟨ha, hb⟩ := hmem
    rw [weight_of_mem ha hb, weight_of_mem (hnodes ▸ ha) (hnodes ▸ hb)]
    constructor
    · rintro ⟨-, hw⟩
      dsimp only at hw
      generalize N.weight? a b = v, M.weight? a b = w at *
      cases hw with
      | none => exact .error _
      | some hw => exact .ok hw
    · intro hw
      refine ⟨hnodes, ?_⟩
      dsimp only
      generalize N.weight? a b = v, M.weight? a b = w at *
      cases v <;> cases w <;> cases hw
      · exact .none
      · exact .some ‹_›
  · have hout := not_and_or.1 hmem
    obtain ⟨x, hN, hM⟩ := weight_of_notMem hnodes hout
    refine iff_of_true ⟨hnodes, ?_⟩ ?_
    · rw [weight?_eq_none hout, weight?_eq_none (hnodes ▸ hout)]
      exact .none
    · rw [hN, hM]
      exact .error x

/-- Networks are equal just if they have the same nodes and answer the same when they are asked for
weights. -/
theorem equals_iff : N.Equals M ↔ N.nodes = M.nodes ∧
    ∀ a b, SameOutcome (fun v w => v.sameNumber w = true) (N.weight a b) (M.weight a b) := by
  constructor
  · intro h
    exact ⟨h.nodes, fun a b => (equalAt_iff h.nodes).1 (h (a, b))⟩
  · rintro ⟨hnodes, hw⟩ p
    exact (equalAt_iff hnodes).2 (hw p.1 p.2)

/-! ## Edits of a pair -/

theorem equalAt_withWeight {v : Option Binary64} (hnodes : N.nodes = M.nodes)
    (h : ∀ w, v = some w → Connection.Fits ⟨a, b, w⟩ N.nodes)
    (h' : ∀ w, v = some w → Connection.Fits ⟨a, b, w⟩ M.nodes) :
    EqualAt (a, b) (N.withWeight a b v h) (M.withWeight a b v h') := by
  refine ⟨hnodes, ?_⟩
  rw [weight?_withWeight, weight?_withWeight, if_pos ⟨rfl, rfl⟩, if_pos ⟨rfl, rfl⟩]
  cases v with
  | none => exact .none
  | some w => exact .some (Binary64.sameNumber_self (h w rfl).finite)

namespace EqualAt

theorem connect (h : EqualAt (a, b) N M) (w : Binary64) :
    SameOutcome (EqualAt (a, b)) (N.connect a b w) (M.connect a b w) := by
  have hmem (n : Node) : n ∉ N.nodes ↔ n ∉ M.nodes := by rw [h.nodes]
  unfold Network.connect
  by_cases ha : a ∉ N.nodes
  · rw [dif_pos ha, dif_pos ((hmem a).1 ha)]
    exact .error _
  rw [dif_neg ha, dif_neg (mt (hmem a).2 ha)]
  by_cases hb : b ∉ N.nodes
  · rw [dif_pos hb, dif_pos ((hmem b).1 hb)]
    exact .error _
  rw [dif_neg hb, dif_neg (mt (hmem b).2 hb)]
  split
  · exact .error _
  · split
    · exact .error _
    · exact .ok (equalAt_withWeight h.nodes _ _)

theorem disconnect (h : EqualAt (a, b) N M) :
    SameOutcome (EqualAt (a, b)) (N.disconnect a b) (M.disconnect a b) := by
  have hnodes := h.nodes
  have hnone : N.weight? a b = none ↔ M.weight? a b = none := h.eq_none_iff
  simp only [Network.disconnect, hnodes, hnone]
  split
  · exact .error _
  · split
    · exact .error _
    · split
      · exact .error _
      · exact .ok (equalAt_withWeight hnodes _ _)

/-- An edit of a pair cannot tell networks apart that are equal there. -/
theorem edit (h : EqualAt p N M) (hx : x.pair? = some p) :
    SameOutcome (EqualAt p) (N.edit x) (M.edit x) := by
  cases x with
  | addNode n => contradiction
  | removeNode n => contradiction
  | connect a b =>
    obtain rfl := Option.some.inj hx
    exact h.connect _
  | connectWeighted a b w =>
    obtain rfl := Option.some.inj hx
    exact h.connect w
  | disconnect a b =>
    obtain rfl := Option.some.inj hx
    exact h.disconnect

end EqualAt

/-- An edit of a pair gives it another weight or takes its weight away. -/
theorem exists_withWeight (hx : x.pair? = some (a, b)) (hN : N.edit x = .ok N') :
    ∃ v h, N' = N.withWeight a b v h := by
  have hconnect {a b : Node} {w : Binary64} (h : N.connect a b w = .ok N') :
      ∃ v h, N' = N.withWeight a b v h := by
    unfold Network.connect at h
    split at h
    · contradiction
    split at h
    · contradiction
    split at h
    · contradiction
    split at h
    · contradiction
    exact ⟨_, _, (Except.ok.inj h).symm⟩
  cases x with
  | addNode n => contradiction
  | removeNode n => contradiction
  | connect a b =>
    obtain ⟨⟩ := hx
    exact hconnect hN
  | connectWeighted a b w =>
    obtain ⟨⟩ := hx
    exact hconnect hN
  | disconnect a b =>
    obtain ⟨⟩ := hx
    simp only [edit, Network.disconnect] at hN
    split at hN
    · contradiction
    split at hN
    · contradiction
    split at hN
    · contradiction
    exact ⟨_, _, (Except.ok.inj hN).symm⟩

/-- An edit of a pair leaves other pairs alone. -/
theorem equalAt_edit_of_ne (hx : x.pair? = some q) (hne : q ≠ p) (hN : N.edit x = .ok N') :
    EqualAt p N' N := by
  obtain ⟨v, h, rfl⟩ := exists_withWeight (a := q.1) (b := q.2) hx hN
  have hother : (N.withWeight q.1 q.2 v h).weight? p.1 p.2 = N.weight? p.1 p.2 := by
    rw [weight?_withWeight, if_neg fun heq => hne (Prod.ext heq.1.symm heq.2.symm)]
  refine ⟨rfl, ?_⟩
  rw [hother]
  exact (EqualAt.refl p N).weight

/-! ## All edits -/

namespace Equals

theorem addNode (h : N.Equals M) (n : Node) : SameOutcome Equals (N.addNode n) (M.addNode n) := by
  unfold Network.addNode
  by_cases hn : n ∈ N.nodes
  · rw [dif_pos hn, dif_pos (h.nodes ▸ hn)]
    exact .error _
  · rw [dif_neg hn, dif_neg (h.nodes ▸ hn)]
    exact .ok fun p => ⟨congrArg (· ++ [n]) h.nodes, (h p).weight⟩

theorem removeNode (h : N.Equals M) (n : Node) :
    SameOutcome Equals (N.removeNode n) (M.removeNode n) := by
  unfold Network.removeNode
  rw [h.nodes]
  split
  · refine .ok fun p => ⟨congrArg (List.filter _) h.nodes, ?_⟩
    rw [weight?_without, weight?_without]
    split
    · exact .none
    · exact (h p).weight
  · exact .error _

theorem edit_of_pair (h : N.Equals M) (hx : x.pair? = some q) :
    SameOutcome Equals (N.edit x) (M.edit x) := by
  refine ((h q).edit hx).imp fun N' M' hN hM hq p => ?_
  by_cases hne : q = p
  · exact hne ▸ hq
  · exact ((equalAt_edit_of_ne hx hne hN).trans (h p)).trans (equalAt_edit_of_ne hx hne hM).symm

/-- No edit can tell equal networks apart. -/
theorem edit (h : N.Equals M) (x : Edit) : SameOutcome Equals (N.edit x) (M.edit x) := by
  cases x with
  | addNode n => exact h.addNode n
  | removeNode n => exact h.removeNode n
  | connect a b => exact h.edit_of_pair rfl
  | connectWeighted a b w => exact h.edit_of_pair rfl
  | disconnect a b => exact h.edit_of_pair rfl

end Equals

/-! ## Edits in other orders -/

/-- The network after an edit, which changes nothing if it is refused. -/
def next (N : Network) (x : Edit) : Network :=
  match N.edit x with
  | .ok N' => N'
  | .error _ => N

theorem runAll_fst (N : Network) (es : List Edit) :
    (Edit.runAll edit N es).1 = es.foldl next N := by
  induction es generalizing N with
  | nil => rfl
  | cons x es ih =>
    rw [Edit.runAll, List.foldl_cons, next]
    cases N.edit x with
    | error e => exact ih N
    | ok N' => exact ih N'

namespace EqualAt

theorem next_of_pair (h : EqualAt p N M) (hx : x.pair? = some p) :
    EqualAt p (N.next x) (M.next x) := by
  have hedit := h.edit hx
  unfold Network.next
  generalize N.edit x = r, M.edit x = s at *
  cases hedit with
  | error e => exact h
  | ok h' => exact h'

theorem next_of_ne (h : EqualAt p N M) (hx : x.pair? = some q) (hne : q ≠ p) :
    EqualAt p (N.next x) M := by
  unfold Network.next
  split
  · exact (equalAt_edit_of_ne hx hne ‹_›).trans h
  · exact h

/-- As far as a pair is concerned, only the edits of this pair matter. -/
theorem run (h : EqualAt p N M) (hes : ∀ x ∈ es, ∃ q, x.pair? = some q) :
    EqualAt p (es.foldl next N) ((es.filter fun x => x.pair? = some p).foldl next M) := by
  induction es generalizing N M with
  | nil => exact h
  | cons x es ih =>
    obtain ⟨⟨q, hx⟩, hes⟩ := List.forall_mem_cons.1 hes
    by_cases hq : q = p
    · subst hq
      rw [List.filter_cons_of_pos (by simpa using hx)]
      exact ih (h.next_of_pair hx) hes
    · rw [List.filter_cons_of_neg (by simpa [hx] using hq)]
      exact ih (h.next_of_ne hx hq) hes

end EqualAt

/-- Edits of connections lead to equal networks if those of each pair are in the same order. -/
theorem Equals.run (h : N.Equals M) (hes : ∀ x ∈ es, ∃ q, x.pair? = some q)
    (hes' : ∀ x ∈ es', ∃ q, x.pair? = some q)
    (hsame : ∀ p, es.filter (fun x => x.pair? = some p) = es'.filter fun x => x.pair? = some p) :
    Equals (Edit.runAll Network.edit N es).1 (Edit.runAll Network.edit M es').1 := by
  intro p
  rw [runAll_fst, runAll_fst]
  have hleft := (h p).run hes
  have hright := (EqualAt.refl p M).run hes'
  rw [hsame p] at hleft
  exact hleft.trans hright.symm

end Network

end CouplingMap
