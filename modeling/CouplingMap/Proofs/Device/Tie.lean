import CouplingMap.Proofs.Device.Worst

/-!
# Ties with nodes that the device before lacks

The worst node may be looked for with any other device as the device before. A node that the other
device lacks is no match for one that it has, nor the other way around: whichever of the two is
tried first keeps its place. Which node is found then depends on the order in which they are tried.

* `Device.Overtakes`, `Device.worseOf_eq`: when a node takes the place of the worst so far.
* `Device.Prevails`: what is left of some nodes that are tried in ascending order.
* `Device.Prevails.next`, `Device.prevails_foldl`: one node more, and all of them.
* `Device.worstNode_tied`: the worst node is the one that prevails over all candidates.
* `Device.not_worstNode_strangers`: the device before may lack the worst node and have another
  candidate with the same fingerprint.
-/

namespace CouplingMap.Device

variable {d before : Device} {S : Set Node} {tried ns : List Node} {u v w c : Node}

/-! ## Two nodes -/

/-- A node takes the place of the worst node so far: its fingerprint is greater, or it is the same
and that on the device before is greater, where both nodes are known. -/
def Overtakes (d before : Device) (w c : Node) : Prop :=
  spans (d.fingerprintOf w) < spans (d.fingerprintOf c) ∨
    d.fingerprintOf c = d.fingerprintOf w ∧ (w ∈ before.nodes ∧ c ∈ before.nodes) ∧
      spans (before.fingerprintOf w) < spans (before.fingerprintOf c)

theorem farther_eq_false (h : ¬ (w ∈ before.nodes ∧ c ∈ before.nodes)) :
    before.farther before.table c w = false := by
  unfold farther
  split
  · rename_i i j hi hj
    exact absurd ⟨place?_eq_some.1 hj ▸ nodeAt_mem j, place?_eq_some.1 hi ▸ nodeAt_mem i⟩ h
  · rfl

/-- Ties are decided on the device before if it has both nodes. -/
theorem farther_iff (hsize : before.size < UInt64.size) : before.farther before.table c w = true ↔
    (w ∈ before.nodes ∧ c ∈ before.nodes) ∧
      spans (before.fingerprintOf w) < spans (before.fingerprintOf c) := by
  by_cases h : w ∈ before.nodes ∧ c ∈ before.nodes
  · rw [farther_eq h.1 h.2, decide_eq_true_iff, keys_fingerprintOf hsize h.1 h.2, and_iff_right h]
  · rw [farther_eq_false h]
    exact ⟨nofun, fun hknown => absurd hknown.1 h⟩

/-- The worst node so far keeps its place unless it is overtaken. -/
theorem worseOf_eq (hd : d.size < UInt64.size) (hsize : before.size < UInt64.size)
    (hw : w ∈ d.nodes) (hc : c ∈ d.nodes) :
    (Overtakes d before w c → worseOf (before.farther before.table) (d.candidate w)
      (d.candidate c) = d.candidate c) ∧
    (¬ Overtakes d before w c → worseOf (before.farther before.table) (d.candidate w)
      (d.candidate c) = d.candidate w) := by
  have hlength : (d.fingerprintOf c).length = (d.fingerprintOf w).length := by
    rw [length_fingerprintOf hc, length_fingerprintOf hw]
  simp only [worseOf, candidate, compareFingerprints_eq hlength, farther_iff hsize,
    keys_fingerprintOf hd hw hc, keys_fingerprintOf hd hc hw, Overtakes]
  rcases lt_trichotomy (spans (d.fingerprintOf w)) (spans (d.fingerprintOf c)) with hlt | heq | hgt
  · simp [hlt]
  · simp only [spans_injective heq, lt_irrefl, if_false, false_or, true_and]
    exact ⟨fun h => if_pos h, fun h => if_neg h⟩
  · have hne : d.fingerprintOf c ≠ d.fingerprintOf w := fun h => hgt.ne (congrArg spans h)
    simp [hgt, hgt.not_gt, hne]

/-! ## Many nodes -/

/-- A node prevails over others: no fingerprint is greater than its own, and of the nodes with the
same fingerprint it comes first if the device before does not know it. If it is known, a known node
comes before all unknown ones, and no known one has a greater fingerprint on the device before, nor
the same one if it comes earlier. -/
structure Prevails (d before : Device) (S : Set Node) (w : Node) : Prop where
  mem : w ∈ S
  greatest : ∀ c ∈ S, spans (d.fingerprintOf c) ≤ spans (d.fingerprintOf w)
  unknown : w ∉ before.nodes →
    ∀ c ∈ S, d.fingerprintOf c = d.fingerprintOf w → c ≠ w → compare w c = .lt
  led : w ∈ before.nodes →
    ∀ c ∈ S, d.fingerprintOf c = d.fingerprintOf w → c ∉ before.nodes →
      ∃ k ∈ S, d.fingerprintOf k = d.fingerprintOf w ∧ k ∈ before.nodes ∧ compare k c = .lt
  known : w ∈ before.nodes →
    ∀ c ∈ S, d.fingerprintOf c = d.fingerprintOf w → c ∈ before.nodes → c ≠ w →
      spans (before.fingerprintOf c) < spans (before.fingerprintOf w) ∨
        before.fingerprintOf c = before.fingerprintOf w ∧ compare w c = .lt

/-- A node that overtakes the one that prevails over some others prevails over all of them. -/
theorem Prevails.overtaken (h : Prevails d before S w) (ho : Overtakes d before w c) :
    Prevails d before (insert c S) c := by
  rcases ho with hlt | ⟨htied, hboth, hrank⟩
  · -- No other node has a fingerprint that is as great.
    have hless {k : Node} (hk : k ∈ S) :
        spans (d.fingerprintOf k) < spans (d.fingerprintOf c) := (h.greatest k hk).trans_lt hlt
    have honly {k : Node} (hk : k ∈ insert c S) (htied : d.fingerprintOf k = d.fingerprintOf c) :
        k = c := hk.resolve_right fun hk => (hless hk).ne (congrArg spans htied)
    refine ⟨Set.mem_insert c S, ?_, ?_, ?_, ?_⟩
    · rintro k (rfl | hk)
      · exact le_rfl
      · exact (hless hk).le
    · exact fun _ k hk htied hne => absurd (honly hk htied) hne
    · exact fun hc k hk htied hk' => absurd (honly hk htied ▸ hc) hk'
    · exact fun _ k hk htied _ hne => absurd (honly hk htied) hne
  · refine ⟨Set.mem_insert c S, ?_, fun hc => absurd hboth.2 hc, ?_, ?_⟩
    · rintro k (rfl | hk)
      · exact le_rfl
      · exact htied ▸ h.greatest k hk
    · rintro hc k (rfl | hk) hk' hunknown
      · exact absurd hc hunknown
      · rw [htied] at hk' ⊢
        obtain ⟨m, hm, hfirst⟩ := h.led hboth.1 k hk hk' hunknown
        exact ⟨m, .inr hm, hfirst⟩
    · rintro - k (rfl | hk) hk' hknown hne
      · contradiction
      refine .inl ?_
      by_cases hkw : k = w
      · exact hkw ▸ hrank
      · rcases h.known hboth.1 k hk (hk'.trans htied) hknown hkw with hlt | ⟨heq, -⟩
        · exact hlt.trans hrank
        · exact heq ▸ hrank

/-- A node that is tried after some others and does not overtake the one that prevails over them
changes nothing. -/
theorem Prevails.kept (h : Prevails d before S w) (hlast : ∀ k ∈ S, compare k c = .lt)
    (ho : ¬ Overtakes d before w c) : Prevails d before (insert c S) w := by
  have hnot := not_or.1 ho
  refine ⟨.inr h.mem, ?_, ?_, ?_, ?_⟩
  · rintro k (rfl | hk)
    · exact le_of_not_gt hnot.1
    · exact h.greatest k hk
  · rintro hw k (rfl | hk) htied hne
    · exact hlast w h.mem
    · exact h.unknown hw k hk htied hne
  · rintro hw k (rfl | hk) htied hunknown
    · exact ⟨w, .inr h.mem, rfl, hw, hlast w h.mem⟩
    · obtain ⟨m, hm, hfirst⟩ := h.led hw k hk htied hunknown
      exact ⟨m, .inr hm, hfirst⟩
  · rintro hw k (rfl | hk) htied hknown hne
    · have hrank := le_of_not_gt fun hlt => hnot.2 ⟨htied, ⟨hw, hknown⟩, hlt⟩
      exact hrank.lt_or_eq.imp_right fun heq => ⟨spans_injective heq, hlast w h.mem⟩
    · exact h.known hw k hk htied hknown hne

/-- A node prevails over itself. -/
theorem prevails_self (d before : Device) (w : Node) : Prevails d before {w} w := by
  have hself {k : Node} (hk : k ∈ ({w} : Set Node)) (hne : k ≠ w) : False := hne hk
  refine ⟨rfl, ?_, ?_, ?_, ?_⟩
  · rintro k rfl
    exact le_rfl
  · exact fun _ k hk _ hne => (hself hk hne).elim
  · rintro hw k rfl - hunknown
    contradiction
  · exact fun _ k hk _ _ hne => (hself hk hne).elim

/-- Of two nodes that prevail over the same nodes, the device before knows both or neither. -/
theorem Prevails.mem_before (h : Prevails d before S w) (h' : Prevails d before S c)
    (htied : d.fingerprintOf w = d.fingerprintOf c) (hw : w ∈ before.nodes) : c ∈ before.nodes := by
  by_contra hc
  obtain ⟨k, hk, hkw, hknown, hkc⟩ := h.led hw c h'.mem htied.symm hc
  have hck := h'.unknown hc k hk (hkw.trans htied) fun heq => hc (heq ▸ hknown)
  exact Std.OrientedCmp.not_lt_of_lt hkc hck

/-- At most one node prevails. -/
theorem Prevails.eq (h : Prevails d before S w) (h' : Prevails d before S c) : w = c := by
  by_contra hne
  have htied : d.fingerprintOf w = d.fingerprintOf c :=
    spans_injective (le_antisymm (h'.greatest w h.mem) (h.greatest c h'.mem))
  by_cases hw : w ∈ before.nodes
  · have hc := h.mem_before h' htied hw
    rcases h.known hw c h'.mem htied.symm hc (Ne.symm hne) with hlt | ⟨heq, hlt⟩
    · rcases h'.known hc w h.mem htied hw hne with hlt' | ⟨heq', -⟩
      · exact hlt.asymm hlt'
      · exact hlt.ne (congrArg spans heq'.symm)
    · rcases h'.known hc w h.mem htied hw hne with hlt' | ⟨-, hlt'⟩
      · exact hlt'.ne (congrArg spans heq.symm)
      · exact Std.OrientedCmp.not_lt_of_lt hlt hlt'
  · have hc : c ∉ before.nodes := fun hc => hw (h'.mem_before h htied.symm hc)
    exact Std.OrientedCmp.not_lt_of_lt (h.unknown hw c h'.mem htied.symm (Ne.symm hne))
      (h'.unknown hc w h.mem htied hne)

/-- The scan of nodes in ascending order leaves the one that prevails over all of them. -/
theorem prevails_foldl (hd : d.size < UInt64.size) (hsize : before.size < UInt64.size)
    (hsorted : (tried ++ ns).Pairwise fun a b => compare a b = .lt)
    (hmem : ∀ n ∈ tried ++ ns, n ∈ d.nodes) (h : Prevails d before {n | n ∈ tried} w) :
    Prevails d before {n | n ∈ tried ++ ns} ((ns.map d.candidate).foldl
      (worseOf (before.farther before.table)) (d.candidate w)).node := by
  induction ns generalizing tried w with
  | nil => rwa [List.append_nil]
  | cons n ns ih =>
    have hlast : ∀ k ∈ {m | m ∈ tried}, compare k n = .lt := fun k hk =>
      (List.pairwise_append.1 hsorted).2.2 k hk n List.mem_cons_self
    have hsplit : tried ++ n :: ns = tried ++ [n] ++ ns := by simp
    have hinsert : {m | m ∈ tried ++ [n]} = insert n {m | m ∈ tried} := by
      ext m
      simp [or_comm]
    have hw := hmem w (List.mem_append_left _ h.mem)
    have hn := hmem n (List.mem_append_right _ List.mem_cons_self)
    obtain ⟨hovertakes, hkeeps⟩ := worseOf_eq hd hsize hw hn
    rw [hsplit] at hsorted hmem ⊢
    rw [List.map_cons, List.foldl_cons]
    by_cases ho : Overtakes d before w n
    · rw [hovertakes ho]
      exact ih hsorted hmem (hinsert ▸ h.overtaken ho)
    · rw [hkeeps ho]
      exact ih hsorted hmem (hinsert ▸ h.kept hlast ho)

/-! ## The worst node -/

/-- There is no worst node just if there is no candidate. -/
theorem worstNode?_eq_none_iff_forall : d.worstNode? before = none ↔ ∀ n, ¬ d.Expendable n := by
  rw [worstNode?, candidates_eq]
  cases hcs : d.candidateNodes d.table with
  | nil =>
    refine iff_of_true rfl fun n hn => ?_
    have hn := mem_candidateNodes.2 hn
    rw [hcs] at hn
    contradiction
  | cons n ns =>
    have hn : d.Expendable n := mem_candidateNodes.1 (hcs ▸ List.mem_cons_self)
    exact iff_of_false (Option.some_ne_none _) fun h => h n hn

/-- The worst node prevails over all candidates. -/
theorem prevails_of_worstNode? (hd : d.size < UInt64.size) (hsize : before.size < UInt64.size)
    (h : d.worstNode? before = some w) : Prevails d before {n | d.Expendable n} w := by
  have hall : {n | d.Expendable n} = {n | n ∈ d.candidateNodes d.table} :=
    Set.ext fun n => mem_candidateNodes.symm
  have hmem (n : Node) (hn : n ∈ d.candidateNodes d.table) : n ∈ d.nodes :=
    (mem_candidateNodes.1 hn).mem
  have hsorted := d.pairwise_candidateNodes
  rw [worstNode?, candidates_eq] at h
  rw [hall]
  cases hcs : d.candidateNodes d.table with
  | nil =>
    rw [hcs] at h
    contradiction
  | cons n ns =>
    rw [hcs] at h hmem hsorted
    have hfirst : Prevails d before {m | m ∈ [n]} n := by
      simpa using prevails_self d before n
    have hscan : Prevails d before {m | m ∈ [n] ++ ns} _ :=
      prevails_foldl hd hsize hsorted hmem hfirst
    rwa [Option.some.inj h] at hscan

/-- The worst node is the candidate that prevails over all others. -/
theorem worstNode?_eq_some_iff_prevails (hd : d.size < UInt64.size)
    (hsize : before.size < UInt64.size) :
    d.worstNode? before = some w ↔ Prevails d before {n | d.Expendable n} w := by
  refine ⟨prevails_of_worstNode? hd hsize, fun h => ?_⟩
  cases hworst : d.worstNode? before with
  | none => exact absurd h.mem (worstNode?_eq_none_iff_forall.1 hworst w)
  | some v => rw [(prevails_of_worstNode? hd hsize hworst).eq h]

/-- Whichever device is taken for the device before, there is a worst node if there is a candidate,
and it is the one that prevails over all of them. If the device before lacks it, then it is the
first of the candidates with its fingerprint. -/
theorem worstNode_tied (d before : Device) (hd : d.nodes.length < UInt64.size)
    (hsize : before.nodes.length < UInt64.size) :
    (d.worstNode? before = none ↔ ∀ n, ¬ d.Expendable n) ∧
    (∀ w, d.worstNode? before = some w ↔ Prevails d before {n | d.Expendable n} w) ∧
    ∀ w, d.worstNode? before = some w → w ∉ before.nodes →
      ∀ c, d.Expendable c → c ≠ w → d.fingerprint c = d.fingerprint w → compare w c = .lt := by
  rw [length_nodes] at hd hsize
  refine ⟨worstNode?_eq_none_iff_forall, fun w => worstNode?_eq_some_iff_prevails hd hsize, ?_⟩
  intro w hworst hw c hc hne htied
  have hprevails := (worstNode?_eq_some_iff_prevails hd hsize).1 hworst
  have htied : d.fingerprintOf c = d.fingerprintOf w := by rw [fingerprintOf, htied, fingerprintOf]
  exact hprevails.unknown hw c hc htied hne

/-- A device with only one of the twins, and the node between them. -/
def strangers : Device :=
  ofFitting [.ofIndex 2, .ofIndex 3] [⟨.ofIndex 3, .ofIndex 2, defaultWeight⟩] (by decide)

theorem worstNode_tied_strangers :
    twins.nodes.length < UInt64.size ∧ strangers.nodes.length < UInt64.size ∧
    ∀ w, twins.worstNode? strangers = some w ↔
      Prevails twins strangers {n | twins.Expendable n} w :=
  ⟨by decide, by decide, (worstNode_tied twins strangers (by decide) (by decide)).2.1⟩

/-- The twins have the same fingerprint. -/
theorem fingerprint_twins :
    twins.fingerprint (.ofIndex 2) = twins.fingerprint (.ofIndex 1) := by decide +kernel

theorem minDegreeNodes_twins : twins.minDegreeNodes = [.ofIndex 1, .ofIndex 2] := by
  have hscan : ((twins.nodes.zip twins.order).foldl (fun (s : Leaders) p =>
      s.meet (fun degree best => degree < best) p.1 (twins.incidence.degree p.2)) ⟨none, []⟩).nodes =
      [Node.ofIndex 2, Node.ofIndex 1] := by decide +kernel
  have hswap : Node.sorted [.ofIndex 2, .ofIndex 1] = Node.sorted [.ofIndex 1, .ofIndex 2] :=
    Node.sorted_eq_of_perm (by decide) (.swap ..)
  rw [minDegreeNodes, extremes, hscan, hswap, Node.sorted]
  exact List.mergeSort_of_pairwise (by decide)

theorem candidateNodes_twins :
    twins.candidateNodes twins.table = [.ofIndex 1, .ofIndex 2] := by
  have hcuts : twins.cutNodes twins.table = [.ofIndex 3] := by decide +kernel
  rw [candidateNodes, minDegreeNodes_twins, hcuts]
  decide

theorem expendable_twin : twins.Expendable (.ofIndex 2) :=
  mem_candidateNodes.1 (by simp [candidateNodes_twins])

/-- The second twin does not overtake the first one, which the device before lacks. -/
theorem worstNode?_strangers : twins.worstNode? strangers = some (.ofIndex 1) := by
  have hnot : ¬ Overtakes twins strangers (.ofIndex 1) (.ofIndex 2) := by
    rintro (hlt | ⟨-, ⟨hmem, -⟩, -⟩)
    · simp [fingerprintOf, fingerprint_twins] at hlt
    · exact absurd hmem (by decide)
  have hkeeps := (worseOf_eq (d := twins) (by decide) (by decide) (by decide) (by decide)).2 hnot
  rw [worstNode?, candidates_eq, candidateNodes_twins]
  simp only [List.map_cons, List.map_nil, worstOf?, List.foldl_cons, List.foldl_nil, hkeeps]
  rfl

/-- The first of the twins is the worst node although the device before has only the second one. -/
theorem not_worstNode_strangers :
    ¬ ∀ w, twins.worstNode? strangers = some w → w ∉ strangers.nodes →
      ∀ c, twins.Expendable c → c ≠ w → c ∈ strangers.nodes →
        twins.fingerprint c ≠ twins.fingerprint w := by
  intro h
  have hlacks : .ofIndex 1 ∉ strangers.nodes := by decide
  have hhas : .ofIndex 2 ∈ strangers.nodes := by decide
  exact h _ worstNode?_strangers hlacks _ expendable_twin (by decide) hhas fingerprint_twins

end CouplingMap.Device
