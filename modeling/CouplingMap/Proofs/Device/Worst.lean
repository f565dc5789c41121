import CouplingMap.Proofs.Device.Distance
import CouplingMap.Proofs.Device.Prune
import Mathlib.Data.List.MinMax
import Mathlib.Data.Prod.Lex
import Mathlib.Order.WithBot

/-!
# The worst node is the greatest in a linear order

The scan keeps the worst node so far, which gives way to a candidate of greater rank. A rank is a
pair of fingerprints, each read item by item, so that ranks are in a linear order. The scan thus
finds the greatest rank, and the first node that has it. Candidates come in ascending order.

* `span`: an item of a fingerprint, with unreachable above all hop counts.
* `compareFingerprints_eq`, `keys_lt_keys`: fingerprints of one length are compared as lists of
  numbers, which are those of the spans as long as no hop count is taken for unreachable.
* `Device.worstNode?_eq_argmax`: the worst node has the greatest rank.
* `Device.worstNode_exact`: there is none if all nodes of least degree are cut vertices, and
  otherwise it outranks all other candidates.
-/

namespace CouplingMap

/-! ## Fingerprints -/

variable {f g : List (Option Nat)} {o p : Option Nat}

/-- An item of a fingerprint: unreachable lies above all hop counts. -/
def span (hops : Option Nat) : WithTop Nat := hops.elim ⊤ fun k => (k : WithTop Nat)

/-- The items of a fingerprint. -/
def spans (f : List (Option Nat)) : List (WithTop Nat) := f.map span

/-- Different fingerprints have different spans. -/
theorem spans_injective : Function.Injective spans := by
  refine List.map_injective_iff.2 fun o p h => ?_
  cases o <;> cases p <;> simp_all [span]

/-- No hop count is taken for unreachable. -/
def BelowUnreachable (f : List (Option Nat)) : Prop := ∀ k, some k ∈ f → k < UInt64.size - 1

/-- Keys are in the order of spans. -/
theorem hopKey_lt_hopKey (ho : ∀ k, o = some k → k < UInt64.size - 1)
    (hp : ∀ k, p = some k → k < UInt64.size - 1) : hopKey o < hopKey p ↔ span o < span p := by
  cases o with
  | none =>
    cases p with
    | none => simp
    | some k => simpa [hopKey, span] using (hp k rfl).le
  | some j =>
    cases p with
    | none => simpa [hopKey, span] using ho j rfl
    | some k => simp [hopKey, span]

theorem keys_lt_keys (hf : BelowUnreachable f) (hg : BelowUnreachable g) :
    Device.fingerprintKeys f < Device.fingerprintKeys g ↔ spans f < spans g := by
  induction f generalizing g with
  | nil => cases g <;> simp [Device.fingerprintKeys, spans]
  | cons o f ih =>
    cases g with
    | nil => simp [Device.fingerprintKeys, spans]
    | cons p g =>
      have ho (k : Nat) (h : o = some k) := hf k (h ▸ List.mem_cons_self)
      have hp (k : Nat) (h : p = some k) := hg k (h ▸ List.mem_cons_self)
      have ih := ih (fun k h => hf k (List.mem_cons_of_mem _ h))
        (fun k h => hg k (List.mem_cons_of_mem _ h))
      have heq : hopKey o = hopKey p ↔ span o = span p := by
        simp only [le_antisymm_iff, ← not_lt, hopKey_lt_hopKey ho hp, hopKey_lt_hopKey hp ho]
      simp only [Device.fingerprintKeys, spans] at ih
      simp only [Device.fingerprintKeys, spans, List.map_cons, List.cons_lt_cons_iff,
        hopKey_lt_hopKey ho hp, heq, ih]

/-- Fingerprints of one length are compared as lists of numbers. -/
theorem compareFingerprints_eq (h : f.length = g.length) : compareFingerprints f g =
    if Device.fingerprintKeys g < Device.fingerprintKeys f then .worse
    else if Device.fingerprintKeys f < Device.fingerprintKeys g then .better
    else .tied := by
  induction f generalizing g with
  | nil =>
    obtain rfl := List.length_eq_zero_iff.1 h.symm
    rfl
  | cons o f ih =>
    cases g with
    | nil => contradiction
    | cons p g =>
      rw [compareFingerprints, ih (Nat.succ.inj h)]
      simp only [Device.fingerprintKeys, List.map_cons, List.cons_lt_cons_iff]
      rcases lt_trichotomy (hopKey o) (hopKey p) with hlt | heq | hgt
      · simp [hlt, hlt.not_gt, hlt.ne']
      · simp only [heq, lt_irrefl, if_false, false_or, true_and]
        congr
      · simp [hgt]

namespace Device

variable {d before : Device} {n u v w c : Node} {ns : List Node}

/-- The fingerprint of a node of the device. -/
def fingerprintOf (d : Device) (n : Node) : List (Option Nat) :=
  (d.fingerprint n).toOption.getD []

theorem fingerprintOf_nodeAt (d : Device) (i : Fin d.size) :
    d.fingerprintOf (d.nodeAt i) = (d.hops i).toList.eraseIdx i := by
  rw [fingerprintOf, fingerprint_nodeAt]
  rfl

theorem fingerprint_eq (h : n ∈ d.nodes) : d.fingerprint n = .ok (d.fingerprintOf n) := by
  obtain ⟨i, rfl⟩ := exists_nodeAt h
  rw [fingerprint_nodeAt, fingerprintOf_nodeAt]

/-- A fingerprint has an item for each other node. -/
theorem length_fingerprintOf (h : n ∈ d.nodes) : (d.fingerprintOf n).length = d.size - 1 := by
  obtain ⟨i, rfl⟩ := exists_nodeAt h
  rw [fingerprintOf_nodeAt, List.length_eraseIdx, Ledger.length_toList, if_pos i.isLt]

/-- Hop counts are below the number of nodes. -/
theorem belowUnreachable_fingerprintOf (hsize : d.size < UInt64.size) (h : n ∈ d.nodes) :
    BelowUnreachable (d.fingerprintOf n) := by
  obtain ⟨i, rfl⟩ := exists_nodeAt h
  intro k hk
  rw [fingerprintOf_nodeAt] at hk
  obtain ⟨j, hj⟩ := Ledger.mem_toList.1 (List.mem_of_mem_eraseIdx hk)
  have := hops_lt hj
  omega

/-- The keys of fingerprints are in the order of their spans. -/
theorem keys_fingerprintOf (hsize : d.size < UInt64.size) (hu : u ∈ d.nodes) (hv : v ∈ d.nodes) :
    fingerprintKeys (d.fingerprintOf u) < fingerprintKeys (d.fingerprintOf v) ↔
      spans (d.fingerprintOf u) < spans (d.fingerprintOf v) :=
  keys_lt_keys (belowUnreachable_fingerprintOf hsize hu) (belowUnreachable_fingerprintOf hsize hv)

/-! ## Ranks -/

/-- The rank of a node: its fingerprint and, for ties, its fingerprint on the device before. -/
def rank (d before : Device) (n : Node) : List (WithTop Nat) ×ₗ List (WithTop Nat) :=
  toLex (spans (d.fingerprintOf n), spans (before.fingerprintOf n))

/-- A node with its fingerprint. -/
def candidate (d : Device) (n : Node) : Candidate := ⟨n, d.fingerprintOf n⟩

theorem farther_eq (hu : u ∈ d.nodes) (hv : v ∈ d.nodes) : d.farther d.table v u =
    decide (fingerprintKeys (d.fingerprintOf u) < fingerprintKeys (d.fingerprintOf v)) := by
  obtain ⟨i, rfl⟩ := exists_nodeAt hu
  obtain ⟨j, rfl⟩ := exists_nodeAt hv
  rw [farther, place?_eq_some.2 rfl, place?_eq_some.2 rfl, fingerprintOf_nodeAt,
    fingerprintOf_nodeAt]
  rfl

/-- One of two nodes stays the worst unless the other has a greater rank. -/
theorem worseOf_candidate (hsize : before.size < UInt64.size) (hd : d.size ≤ before.size)
    (hu : u ∈ d.nodes ∧ u ∈ before.nodes) (hv : v ∈ d.nodes ∧ v ∈ before.nodes) :
    worseOf (before.farther before.table) (d.candidate u) (d.candidate v) =
      d.candidate (if rank d before u < rank d before v then v else u) := by
  have hlength : (d.fingerprintOf v).length = (d.fingerprintOf u).length := by
    rw [length_fingerprintOf hv.1, length_fingerprintOf hu.1]
  have hd := hd.trans_lt hsize
  simp only [worseOf, candidate, compareFingerprints_eq hlength, farther_eq hu.2 hv.2,
    keys_fingerprintOf hd hu.1 hv.1, keys_fingerprintOf hd hv.1 hu.1,
    keys_fingerprintOf hsize hu.2 hv.2, decide_eq_true_eq, rank, Prod.Lex.toLex_lt_toLex]
  rcases lt_trichotomy (spans (d.fingerprintOf u)) (spans (d.fingerprintOf v)) with hlt | heq | hgt
  · simp [hlt]
  · simp only [heq, lt_irrefl, if_false, false_or, true_and]
    split <;> rfl
  · simp [hgt, hgt.not_gt, hgt.ne']

/-- The scan finds the first node of greatest rank. -/
theorem foldl_worseOf (hsize : before.size < UInt64.size) (hd : d.size ≤ before.size)
    (h : ∀ n ∈ w :: ns, n ∈ d.nodes ∧ n ∈ before.nodes) :
    some ((ns.map d.candidate).foldl (worseOf (before.farther before.table))
      (d.candidate w)).node = (w :: ns).argmax (rank d before) := by
  induction ns generalizing w with
  | nil => rfl
  | cons n ns ih =>
    have hw := h w List.mem_cons_self
    have hn := h n (List.mem_cons_of_mem _ List.mem_cons_self)
    have hns (m : Node) (hm : m ∈ ns) := h m (List.mem_cons_of_mem _ (List.mem_cons_of_mem _ hm))
    rw [List.map_cons, List.foldl_cons, worseOf_candidate hsize hd hw hn, ih]
    · rw [List.argmax, List.argmax, List.foldl_cons, List.foldl_cons, List.foldl_cons]
      by_cases hlt : rank d before w < rank d before n <;> simp [List.argAux, hlt]
    · rintro m (_ | ⟨_, hm⟩)
      · split
        · exact hn
        · exact hw
      · exact hns m hm

theorem candidates_eq (d : Device) :
    d.candidates d.table = (d.candidateNodes d.table).map d.candidate := by
  refine List.filterMap_eq_map_iff_forall_eq_some.2 fun n hn => ?_
  obtain ⟨i, rfl⟩ := exists_nodeAt (mem_candidateNodes.1 hn).mem
  rw [place?_eq_some.2 rfl, candidate, fingerprintOf_nodeAt]
  rfl

theorem size_le_size (h : ∀ n ∈ d.nodes, n ∈ before.nodes) : d.size ≤ before.size := by
  rw [← length_nodes, ← length_nodes]
  exact (List.subperm_of_subset d.nodes_nodup h).length_le

/-- The worst node is the first candidate of greatest rank. -/
theorem worstNode?_eq_argmax (hnodes : ∀ n ∈ d.nodes, n ∈ before.nodes)
    (hsize : before.size < UInt64.size) :
    d.worstNode? before = (d.candidateNodes d.table).argmax (rank d before) := by
  have hmem (n : Node) (hn : n ∈ d.candidateNodes d.table) : n ∈ d.nodes ∧ n ∈ before.nodes := by
    have hn := (mem_candidateNodes.1 hn).mem
    exact ⟨hn, hnodes n hn⟩
  rw [worstNode?, candidates_eq]
  cases hcs : d.candidateNodes d.table with
  | nil => rfl
  | cons w ns => exact foldl_worseOf hsize (size_le_size hnodes) (hcs ▸ hmem)

/-- The candidates are in ascending order. -/
theorem pairwise_candidateNodes (d : Device) :
    (d.candidateNodes d.table).Pairwise fun a b => compare a b = .lt :=
  (pairwise_extremes Leaders.picks_min d).filter _

/-- The fingerprints of `w`, on the device and then on the device before, are greater than those of
`c` item by item, or they are the same and `w` comes first in the order of nodes. -/
def Outranks (d before : Device) (w c : Node) : Prop :=
  ∃ f g f' g', d.fingerprint w = .ok f ∧ before.fingerprint w = .ok g ∧
    d.fingerprint c = .ok f' ∧ before.fingerprint c = .ok g' ∧
      (toLex (spans f', spans g') < toLex (spans f, spans g) ∨
        f' = f ∧ g' = g ∧ compare w c = .lt)

theorem outranks_iff (hw : w ∈ d.nodes ∧ w ∈ before.nodes) (hc : c ∈ d.nodes ∧ c ∈ before.nodes) :
    Outranks d before w c ↔ rank d before c < rank d before w ∨
      rank d before c = rank d before w ∧ compare w c = .lt := by
  have hrank : rank d before c = rank d before w ↔
      d.fingerprintOf c = d.fingerprintOf w ∧ before.fingerprintOf c = before.fingerprintOf w := by
    rw [rank, rank, toLex_inj, Prod.mk.injEq, spans_injective.eq_iff, spans_injective.eq_iff]
  simp only [Outranks, fingerprint_eq hw.1, fingerprint_eq hw.2, fingerprint_eq hc.1,
    fingerprint_eq hc.2, Except.ok.injEq, hrank, and_assoc]
  constructor
  · rintro ⟨_, _, _, _, rfl, rfl, rfl, rfl, h⟩
    exact h
  · exact fun h => ⟨_, _, _, _, rfl, rfl, rfl, rfl, h⟩

/-- There is no worst node just if all nodes of least degree are cut vertices. -/
theorem worstNode?_eq_none_iff (hnodes : ∀ n ∈ d.nodes, n ∈ before.nodes)
    (hsize : before.size < UInt64.size) : d.worstNode? before = none ↔ ∀ n ∈ d.nodes,
      (∀ m ∈ d.nodes, (d.shape.neighborSet n).ncard ≤ (d.shape.neighborSet m).ncard) →
        Separator d.shape n := by
  rw [worstNode?_eq_argmax hnodes hsize, List.argmax_eq_none, List.eq_nil_iff_forall_not_mem]
  simp only [mem_candidateNodes]
  constructor
  · intro h n hn hleast
    by_contra hwhole
    exact h n ⟨hn, hleast, hwhole⟩
  · rintro h n ⟨hn, hleast, hwhole⟩
    exact hwhole (h n hn hleast)

/-- The worst node outranks all other candidates. -/
theorem worstNode?_eq_some_iff (hnodes : ∀ n ∈ d.nodes, n ∈ before.nodes)
    (hsize : before.size < UInt64.size) : d.worstNode? before = some w ↔
      d.Expendable w ∧ ∀ c, d.Expendable c → c ≠ w → Outranks d before w c := by
  have hmem {n : Node} (hn : d.Expendable n) : n ∈ d.nodes ∧ n ∈ before.nodes :=
    ⟨hn.mem, hnodes n hn.mem⟩
  rw [worstNode?_eq_argmax hnodes hsize, List.argmax_eq_some_iff]
  simp only [mem_candidateNodes]
  refine and_congr_right fun hw => ?_
  have hfirst {c : Node} (hc : d.Expendable c) (hne : c ≠ w) :=
    Node.idxOf_le_idxOf d.pairwise_candidateNodes (mem_candidateNodes.2 hw)
      (mem_candidateNodes.2 hc) hne.symm
  constructor
  · rintro ⟨hmax, hties⟩ c hc hne
    rw [outranks_iff (hmem hw) (hmem hc)]
    rcases (hmax c hc).lt_or_eq with hlt | heq
    · exact .inl hlt
    · exact .inr ⟨heq, (hfirst hc hne).1 (hties c hc heq.ge)⟩
  · intro h
    have hother {c : Node} (hc : d.Expendable c) (hne : c ≠ w) :=
      (outranks_iff (hmem hw) (hmem hc)).1 (h c hc hne)
    refine ⟨fun c hc => ?_, fun c hc hle => ?_⟩
    · by_cases hne : c = w
      · rw [hne]
      · exact (hother hc hne).elim le_of_lt fun heq => heq.1.le
    · by_cases hne : c = w
      · rw [hne]
      · exact (hfirst hc hne).2 ((hother hc hne).elim (fun hlt => absurd hlt hle.not_gt) And.right)

/-- There is no worst node just if all nodes of least degree are cut vertices, as on the device
without nodes. Otherwise it is the one node of least degree and no cut vertex that outranks all
others, so that the order in which they are tried does not matter. The number of nodes is bounded
since unreachable is the largest 64-bit number in the comparison. -/
theorem worstNode_exact (d before : Device) (hnodes : ∀ n ∈ d.nodes, n ∈ before.nodes)
    (hsize : before.nodes.length < UInt64.size) :
    (d.worstNode? before = none ↔ ∀ n ∈ d.nodes,
      (∀ m ∈ d.nodes, (d.shape.neighborSet n).ncard ≤ (d.shape.neighborSet m).ncard) →
        Separator d.shape n) ∧
    (d.nodes = [] → d.worstNode? before = none) ∧
    ∀ w, d.worstNode? before = some w ↔
      d.Expendable w ∧ ∀ c, d.Expendable c → c ≠ w → Outranks d before w c := by
  rw [length_nodes] at hsize
  have hnone := worstNode?_eq_none_iff hnodes hsize
  exact ⟨hnone, fun h => hnone.2 (by simp [h]), fun w => worstNode?_eq_some_iff hnodes hsize⟩

/-- Two nodes on either side of a third one, and a fourth one beyond the second. -/
def beyond : Device :=
  let link (i j : UInt32) : Connection := ⟨.ofIndex i, .ofIndex j, defaultWeight⟩
  ofFitting [.ofIndex 1, .ofIndex 2, .ofIndex 3, .ofIndex 4] [link 1 3, link 3 2, link 2 4]
    (by decide)

/-- The same without the fourth node. The two nodes are as far from each other as from the third. -/
def twins : Device :=
  let link (i j : UInt32) : Connection := ⟨.ofIndex i, .ofIndex j, defaultWeight⟩
  ofFitting [.ofIndex 1, .ofIndex 2, .ofIndex 3] [link 1 3, link 3 2] (by decide)

theorem worstNode_exact_twins :
    (∀ n ∈ twins.nodes, n ∈ beyond.nodes) ∧ beyond.nodes.length < UInt64.size ∧
    ∀ w, twins.worstNode? beyond = some w ↔
      twins.Expendable w ∧ ∀ c, twins.Expendable c → c ≠ w → Outranks twins beyond w c :=
  ⟨by decide, by decide,
    (worstNode_exact twins beyond (by decide) (by decide)).2.2⟩

end Device

end CouplingMap
