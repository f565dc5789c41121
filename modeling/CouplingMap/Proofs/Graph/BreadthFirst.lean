import CouplingMap.Graph.Search
import CouplingMap.Proofs.Graph.Walk
import Mathlib.Data.Fintype.Card

/-!
# Breadth-first search counts hops

After a number of rounds the marked vertices are those that so many hops lead to, and each is marked
with the least number of hops. A vertex is marked from a vertex that was marked one round before, so
that the search is over after fewer rounds than there are vertices.

* `Leads`: a number of hops along edges leads from one vertex to another.
* `Visits`: what a part of a round does to the marks. `Layered`: what holds between two rounds.
* `Searched`: what holds of the marks in the end; `searched_search` says that it does.
* `hopsFrom_eq_some`, `hopsFrom_eq_none`: the hop counts are least, and absent without a way.
* `Apart`: the number of hops of a shortest walk. `apart_hopsFrom`: in a graph without directions
  this is the hop count.
-/

namespace CouplingMap.Graph

variable {n : Nat} {adj : Adjacency n} {start u v w : Fin n} {hops j k : Nat}

/-- A number of hops along edges leads from one vertex to another. -/
inductive Leads (adj : Adjacency n) (start : Fin n) : Nat → Fin n → Prop where
  | start : Leads adj start 0 start
  | hop {k : Nat} {u w : Fin n} : Leads adj start k u → w ∈ adj u → Leads adj start (k + 1) w

/-! ## One round -/

/-- From `s` to `t` the ends of the edges in `E` have been visited: those that had no mark have got
one, with the number of the round and the start of an edge, and have joined the next round. -/
structure Visits (hops : Nat) (E : Fin n → Fin n → Prop) (s t : Marks n × List (Fin n)) : Prop where
  old : ∀ {w : Fin n} {m : Mark n}, s.1[w] = some m → t.1[w] = some m
  new : ∀ {w : Fin n} {m : Mark n}, s.1[w] = none → t.1[w] = some m →
    ∃ u, E u w ∧ m = ⟨hops, some u⟩
  met : ∀ {u w : Fin n}, E u w → ∃ m, t.1[w] = some m
  next : ∀ {w : Fin n}, w ∈ t.2 ↔ w ∈ s.2 ∨ s.1[w] = none ∧ ∃ m, t.1[w] = some m

namespace Visits

variable {E F : Fin n → Fin n → Prop} {r s t : Marks n × List (Fin n)}

theorem empty (s : Marks n × List (Fin n)) : Visits hops (fun _ _ => False) s s where
  old := id
  new hnone hsome := by simp [hnone] at hsome
  met h := h.elim
  next := by grind

theorem trans (h : Visits hops E r s) (h' : Visits hops F s t) :
    Visits hops (fun u w => E u w ∨ F u w) r t where
  old hw := h'.old (h.old hw)
  new {w m} hnone hm := by
    cases hs : s.1[w] with
    | none =>
      obtain ⟨u, hu, rfl⟩ := h'.new hs hm
      exact ⟨u, Or.inr hu, rfl⟩
    | some m' =>
      obtain ⟨u, hu, rfl⟩ := h.new hnone hs
      have := (h'.old hs).symm.trans hm
      exact ⟨u, Or.inl hu, (Option.some.inj this).symm⟩
  met {u w} hE := by
    rcases hE with hE | hF
    · obtain ⟨m, hm⟩ := h.met hE
      exact ⟨m, h'.old hm⟩
    · exact h'.met hF
  next {w} := by
    rw [h'.next, h.next]
    cases hs : s.1[w] with
    | none =>
      have hr : r.1[w] = none := by
        by_contra hne
        obtain ⟨m, hm⟩ := Option.ne_none_iff_exists'.1 hne
        simp [h.old hm] at hs
      simp [hr]
    | some m => simp [h'.old hs]

theorem congr (h : Visits hops E s t) (hE : ∀ u w, E u w ↔ F u w) : Visits hops F s t := by
  obtain rfl : E = F := by
    funext u w
    exact propext (hE u w)
  exact h

/-- One visit. -/
theorem visit (s : Marks n × List (Fin n)) (u w : Fin n) :
    Visits hops (fun a b => a = u ∧ b = w) s (visit hops u s w) := by
  obtain ⟨marks, next⟩ := s
  unfold Graph.visit
  dsimp only
  cases hw : marks[w] with
  | some m =>
    rw [if_pos Option.isSome_some]
    refine ⟨id, fun hnone hsome => ?_, ?_, ?_⟩
    · simp [hnone] at hsome
    · rintro _ _ ⟨rfl, rfl⟩
      exact ⟨m, hw⟩
    · grind
  | none =>
    rw [if_neg (by simp)]
    have hset (v : Fin n) : (marks.set w (some ⟨hops, some u⟩))[v] =
        if w = v then some ⟨hops, some u⟩ else marks[v] := Ledger.getElem_set ..
    refine ⟨fun {v m} hm => ?_, fun {v m} hnone hm => ?_, ?_, fun {v} => ?_⟩
    · have hne : w ≠ v := by
        rintro rfl
        simp [hw] at hm
      rw [hset, if_neg hne]
      exact hm
    · rw [hset] at hm
      split at hm
      · rename_i heq
        exact ⟨u, ⟨rfl, heq.symm⟩, (Option.some.inj hm).symm⟩
      · simp [hnone] at hm
    · rintro _ v ⟨-, rfl⟩
      exact ⟨_, (hset v).trans (if_pos rfl)⟩
    · simp only [hset, List.mem_cons]
      by_cases heq : w = v
      · subst heq
        simp [hw]
      · simp only [if_neg heq, Ne.symm heq, false_or]
        grind

theorem visitEach (s : Marks n × List (Fin n)) (u : Fin n) (ws : List (Fin n)) :
    Visits hops (fun a b => a = u ∧ b ∈ ws) s (ws.foldl (Graph.visit hops u) s) := by
  induction ws generalizing s with
  | nil => exact (empty s).congr (by simp)
  | cons w ws ih => exact ((visit s u w).trans (ih _)).congr (by simp; grind)

/-- The neighbours of some vertices are visited. -/
theorem visitAll (front : List (Fin n)) (s : Marks n × List (Fin n)) :
    Visits hops (fun u w => u ∈ front ∧ w ∈ adj u) s
      (front.foldl (fun s u => (adj u).foldl (Graph.visit hops u) s) s) := by
  induction front generalizing s with
  | nil => exact (empty s).congr (by simp)
  | cons u front ih => exact ((visitEach s u (adj u)).trans (ih _)).congr (by simp; grind)

/-- A round visits the neighbours of the vertices in front. -/
theorem round (front : List (Fin n)) (marks : Marks n) :
    Visits hops (fun u w => u ∈ front ∧ w ∈ adj u) (marks, [])
      (Graph.round adj hops front marks) := visitAll front (marks, [])

end Visits

/-! ## Marks with a way back -/

/-- A mark tells the last hop from a marked vertex, except at the start. -/
def Traced (adj : Adjacency n) (start : Fin n) (marks : Marks n) : Prop :=
  ∀ ⦃w : Fin n⦄ ⦃m : Mark n⦄, marks[w] = some m → w = start ∧ m = ⟨0, none⟩ ∨
    ∃ (u : Fin n) (m' : Mark n), m.via = some u ∧ w ∈ adj u ∧ marks[u] = some m' ∧
      m.hops = m'.hops + 1

namespace Traced

variable {marks : Marks n} {m : Mark n}

/-- The hops of a mark lead to the vertex. -/
theorem leads (h : Traced adj start marks) (hm : marks[w] = some m) :
    Leads adj start m.hops w := by
  induction hk : m.hops generalizing w m with
  | zero =>
    rcases h hm with ⟨rfl, -⟩ | ⟨u, m', -, -, -, hhops⟩
    · exact .start
    · omega
  | succ k ih =>
    rcases h hm with ⟨-, rfl⟩ | ⟨u, m', -, hadj, hu, hhops⟩
    · contradiction
    · exact .hop (ih hu (by omega)) hadj

/-- A vertex is marked with every smaller number of hops. -/
theorem exists_hops (h : Traced adj start marks) (hm : marks[w] = some m) (hk : k ≤ m.hops) :
    ∃ (u : Fin n) (m' : Mark n), marks[u] = some m' ∧ m'.hops = k := by
  induction hd : m.hops - k generalizing w m with
  | zero => exact ⟨w, m, hm, by omega⟩
  | succ d ih =>
    rcases h hm with ⟨-, rfl⟩ | ⟨u, m', -, -, hu, hhops⟩
    · exact absurd hd (by simp)
    · exact ih hu (by omega) (by omega)

/-- Marks keep a way back when neighbours of vertices of the round before are visited. -/
theorem visits {E : Fin n → Fin n → Prop} {s t : Marks n × List (Fin n)}
    (h : Traced adj start s.1) (hv : Visits (hops + 1) E s t)
    (hE : ∀ u w, E u w → w ∈ adj u ∧ ∃ m, s.1[u] = some m ∧ m.hops = hops) :
    Traced adj start t.1 := by
  intro w m hm
  cases hw : s.1[w] with
  | none =>
    obtain ⟨u, hu, rfl⟩ := hv.new hw hm
    obtain ⟨hadj, m', hm', rfl⟩ := hE u w hu
    exact Or.inr ⟨u, m', rfl, hadj, hv.old hm', rfl⟩
  | some m' =>
    obtain rfl := Option.some.inj ((hv.old hw).symm.trans hm)
    rcases h hw with hstart | ⟨u, m', hvia, hadj, hu, hhops⟩
    · exact Or.inl hstart
    · exact Or.inr ⟨u, m', hvia, hadj, hv.old hu, hhops⟩

/-- There are fewer hops than vertices. -/
theorem hops_lt (h : Traced adj start marks) (hm : marks[w] = some m) : m.hops < n := by
  have hex (k : Fin (m.hops + 1)) :
      ∃ (u : Fin n) (m' : Mark n), marks[u] = some m' ∧ m'.hops = k :=
    h.exists_hops hm (Nat.le_of_lt_succ k.isLt)
  choose vertex mark hmark hhops using hex
  have hinj : Function.Injective vertex := by
    intro j k heq
    have hsame : mark j = mark k :=
      Option.some.inj ((hmark j).symm.trans ((congrArg (fun u => marks[u]) heq).trans (hmark k)))
    exact Fin.ext ((hhops j).symm.trans ((congrArg Mark.hops hsame).trans (hhops k)))
  have hcard := Fintype.card_le_of_injective vertex hinj
  rwa [Fintype.card_fin, Fintype.card_fin] at hcard

end Traced

/-! ## Round after round -/

/-- What holds after a number of rounds: what so many hops lead to is marked, and the vertices in
front are those marked last. -/
structure Layered (adj : Adjacency n) (start : Fin n) (hops : Nat) (front : List (Fin n))
    (marks : Marks n) : Prop where
  traced : Traced adj start marks
  le : ∀ {w : Fin n} {m : Mark n}, marks[w] = some m → m.hops ≤ hops
  reached : ∀ {k : Nat} {w : Fin n}, k ≤ hops → Leads adj start k w →
    ∃ m, marks[w] = some m ∧ m.hops ≤ k
  front : ∀ {w : Fin n}, w ∈ front ↔ ∃ m, marks[w] = some m ∧ m.hops = hops

/-- What holds of the marks after a search. -/
structure Searched (adj : Adjacency n) (start : Fin n) (marks : Marks n) : Prop where
  traced : Traced adj start marks
  reached : ∀ {k : Nat} {w : Fin n}, Leads adj start k w → ∃ m, marks[w] = some m ∧ m.hops ≤ k

namespace Layered

variable {front : List (Fin n)} {marks : Marks n}

theorem initial (adj : Adjacency n) (v : Fin n) : Layered adj v 0 [v] (startMarks v) := by
  have hmark (w : Fin n) : (startMarks v)[w] = if v = w then some ⟨0, none⟩ else none := by
    rw [startMarks, Ledger.getElem_set, Ledger.getElem_replicate]
  have hsome {w : Fin n} {m : Mark n} (hm : (startMarks v)[w] = some m) :
      w = v ∧ m = ⟨0, none⟩ := by
    rw [hmark] at hm
    split at hm
    · rename_i heq
      exact ⟨heq.symm, (Option.some.inj hm).symm⟩
    · contradiction
  refine ⟨fun _ _ hm => Or.inl (hsome hm), fun hm => ?_, fun hk hleads => ?_, fun {w} => ?_⟩
  · obtain ⟨-, rfl⟩ := hsome hm
    exact Nat.le_refl 0
  · cases hleads with
    | start => exact ⟨_, (hmark v).trans (if_pos rfl), Nat.le_refl 0⟩
    | hop => omega
  · rw [List.mem_singleton]
    constructor
    · rintro rfl
      exact ⟨_, (hmark w).trans (if_pos rfl), rfl⟩
    · rintro ⟨m, hm, -⟩
      exact (hsome hm).1

/-- One more round. -/
theorem round (h : Layered adj start hops front marks) :
    Layered adj start (hops + 1) (Graph.round adj (hops + 1) front marks).2.reverse
      (Graph.round adj (hops + 1) front marks).1 := by
  have hv : Visits (hops + 1) (fun u w => u ∈ front ∧ w ∈ adj u) (marks, []) _ := .round front marks
  generalize Graph.round adj (hops + 1) front marks = t at hv ⊢
  obtain ⟨marks', next⟩ := t
  -- A vertex that is marked in this round is one hop behind the front.
  have hnew {w : Fin n} {m : Mark n} (hnone : marks[w] = none) (hm : marks'[w] = some m) :
      ∃ (u : Fin n) (m' : Mark n),
        m = ⟨hops + 1, some u⟩ ∧ w ∈ adj u ∧ marks[u] = some m' ∧ m'.hops = hops := by
    obtain ⟨u, ⟨hu, hadj⟩, rfl⟩ := hv.new hnone hm
    obtain ⟨m', hm', hhops⟩ := h.front.1 hu
    exact ⟨u, m', rfl, hadj, hm', hhops⟩
  refine ⟨h.traced.visits hv fun u w ⟨hu, hadj⟩ => ⟨hadj, h.front.1 hu⟩, fun {w m} hm => ?_,
    fun {k w} hk hleads => ?_, fun {w} => ?_⟩
  · cases hw : marks[w] with
    | none =>
      obtain ⟨u, m', rfl, -⟩ := hnew hw hm
      exact Nat.le_refl _
    | some m' =>
      obtain rfl := Option.some.inj ((hv.old hw).symm.trans hm)
      exact Nat.le_succ_of_le (h.le hw)
  · by_cases hle : k ≤ hops
    · obtain ⟨m, hm, hmk⟩ := h.reached hle hleads
      exact ⟨m, hv.old hm, hmk⟩
    -- The last hop of a way with one hop more starts in front, or at a vertex with fewer hops.
    · cases hleads with
      | start => exact absurd (Nat.zero_le _) hle
      | @hop k u _ hu hadj =>
        obtain ⟨m, hm, hmk⟩ := h.reached (by omega) hu
        by_cases hlt : m.hops < hops
        · obtain ⟨m', hm', hmk'⟩ := h.reached hlt ((h.traced.leads hm).hop hadj)
          exact ⟨m', hv.old hm', by omega⟩
        · have hfront := h.front.2 ⟨m, hm, by omega⟩
          obtain ⟨m', hm'⟩ := hv.met ⟨hfront, hadj⟩
          cases hw : marks[w] with
          | none =>
            obtain ⟨u, m'', rfl, -⟩ := hnew hw hm'
            exact ⟨_, hm', by simp; omega⟩
          | some m'' =>
            have := h.le hw
            exact ⟨m'', hv.old hw, by omega⟩
  · rw [List.mem_reverse, hv.next]
    simp only [List.not_mem_nil, false_or]
    constructor
    · rintro ⟨hnone, m, hm⟩
      obtain ⟨u, m', rfl, -⟩ := hnew hnone hm
      exact ⟨_, hm, rfl⟩
    · rintro ⟨m, hm, hhops⟩
      refine ⟨?_, m, hm⟩
      by_contra hne
      obtain ⟨m', hw⟩ := Option.ne_none_iff_exists'.1 hne
      obtain rfl := Option.some.inj ((hv.old hw).symm.trans hm)
      have := h.le hw
      omega

/-- A search is over when nothing is in front. -/
theorem searched (h : Layered adj start hops [] marks) : Searched adj start marks := by
  refine ⟨h.traced, fun hleads => ?_⟩
  induction hleads with
  | start => exact h.reached (Nat.zero_le _) .start
  | hop _ hadj ih =>
    obtain ⟨m, hm, hmk⟩ := ih
    have hle := h.le hm
    have hne : m.hops ≠ hops := fun e => List.not_mem_nil (h.front.2 ⟨m, hm, e⟩)
    obtain ⟨m', hm', hmk'⟩ := h.reached (by omega) ((h.traced.leads hm).hop hadj)
    exact ⟨m', hm', by omega⟩

/-- As many rounds as there are vertices are enough. -/
theorem rounds {bound : Nat} (h : Layered adj start hops front marks) (hbound : n ≤ hops + bound) :
    Searched adj start (Graph.rounds adj bound hops front marks) := by
  induction bound generalizing hops front marks with
  | zero =>
    have hfront : front = [] := List.eq_nil_iff_forall_not_mem.2 fun w hw => by
      obtain ⟨m, hm, hhops⟩ := h.front.1 hw
      have := h.traced.hops_lt hm
      omega
    subst hfront
    exact h.searched
  | succ bound ih =>
    cases front with
    | nil => exact h.searched
    | cons u front => exact ih h.round (by omega)

end Layered

/-- A search reaches what hops lead to, with the least number of hops. -/
theorem searched_search (adj : Adjacency n) (start : Fin n) :
    Searched adj start (search adj start) :=
  (Layered.initial adj start).rounds (Nat.le_add_left n 0)

/-- A search marks what hops lead to. -/
theorem isSome_search : (search adj start)[w].isSome = true ↔ ∃ k, Leads adj start k w := by
  have h := searched_search adj start
  rw [Option.isSome_iff_exists]
  constructor
  · rintro ⟨m, hm⟩
    exact ⟨_, h.traced.leads hm⟩
  · rintro ⟨k, hk⟩
    obtain ⟨m, hm, -⟩ := h.reached hk
    exact ⟨m, hm⟩

/-! ## Hop counts -/

theorem getElem_hopsFrom (adj : Adjacency n) (start w : Fin n) :
    (hopsFrom adj start)[w] = (search adj start)[w].map Mark.hops := Ledger.getElem_map ..

/-- A hop count is the least number of hops that lead to a vertex. -/
theorem hopsFrom_eq_some : (hopsFrom adj start)[w] = some k ↔
    Leads adj start k w ∧ ∀ j, Leads adj start j w → k ≤ j := by
  have h := searched_search adj start
  rw [getElem_hopsFrom, Option.map_eq_some_iff]
  constructor
  · rintro ⟨m, hm, rfl⟩
    refine ⟨h.traced.leads hm, fun j hj => ?_⟩
    obtain ⟨m', hm', hle⟩ := h.reached hj
    rwa [Option.some.inj (hm.symm.trans hm')]
  · rintro ⟨hleads, hleast⟩
    obtain ⟨m, hm, hle⟩ := h.reached hleads
    exact ⟨m, hm, Nat.le_antisymm hle (hleast _ (h.traced.leads hm))⟩

/-- There is no hop count where hops do not lead. -/
theorem hopsFrom_eq_none : (hopsFrom adj start)[w] = none ↔ ∀ k, ¬ Leads adj start k w := by
  rw [getElem_hopsFrom, Option.map_eq_none_iff, ← Option.not_isSome_iff_eq_none, isSome_search,
    not_exists]

/-- Hop counts are smaller than the number of vertices. -/
theorem hopsFrom_lt (h : (hopsFrom adj start)[w] = some k) : k < n := by
  rw [getElem_hopsFrom, Option.map_eq_some_iff] at h
  obtain ⟨m, hm, rfl⟩ := h
  exact (searched_search adj start).traced.hops_lt hm

/-! ## Walks -/

/-- Hops along edges without directions are those of walks. -/
theorem leads_iff {G : SimpleGraph (Fin n)} (hG : ∀ u w, w ∈ adj u ↔ G.Adj u w) :
    Leads adj start k w ↔ ∃ q : G.Walk start w, q.length = k := by
  constructor
  · intro h
    induction h with
    | start => exact ⟨.nil, rfl⟩
    | @hop k u w _ hadj ih =>
      obtain ⟨q, rfl⟩ := ih
      exact ⟨q.concat ((hG u w).1 hadj), q.length_concat _⟩
  · rintro ⟨q, rfl⟩
    induction q using SimpleGraph.Walk.concatRec with
    | Hnil => exact .start
    | Hconcat q hadj ih =>
      rw [SimpleGraph.Walk.length_concat]
      exact ih.hop ((hG _ _).2 hadj)

/-- A hop count of two vertices: that of a shortest walk between them, and none without a walk. -/
def Apart {V : Type} (G : SimpleGraph V) (a b : V) : Option Nat → Prop
  | some k => (∃ q : G.Walk a b, q.length = k) ∧ ∀ q : G.Walk a b, k ≤ q.length
  | none => ¬ G.Reachable a b

namespace Apart

variable {V : Type} {G : SimpleGraph V} {a b : V} {o p : Option Nat}

theorem self (G : SimpleGraph V) (a : V) : Apart G a a (some 0) :=
  ⟨⟨.nil, rfl⟩, fun q => Nat.zero_le q.length⟩

theorem reachable (h : Apart G a b (some k)) : G.Reachable a b := by
  obtain ⟨⟨q, -⟩, -⟩ := h
  exact ⟨q⟩

/-- Two vertices have one hop count. -/
theorem unique (h : Apart G a b o) (h' : Apart G a b p) : o = p := by
  cases o with
  | none =>
    cases p with
    | none => rfl
    | some k => exact absurd h'.reachable h
  | some j =>
    cases p with
    | none => exact absurd h.reachable h'
    | some k =>
      obtain ⟨⟨q, rfl⟩, hleast⟩ := h
      obtain ⟨⟨r, rfl⟩, hleast'⟩ := h'
      exact congrArg some (Nat.le_antisymm (hleast r) (hleast' q))

theorem symm (h : Apart G a b o) : Apart G b a o := by
  cases o with
  | none => exact fun hr => h hr.symm
  | some k =>
    obtain ⟨⟨q, rfl⟩, hleast⟩ := h
    refine ⟨⟨q.reverse, q.length_reverse⟩, fun r => ?_⟩
    rw [← r.length_reverse]
    exact hleast r.reverse

/-- Along a detour there are no fewer hops. -/
theorem le_add {c : V} {l : Nat} (h : Apart G a b (some j)) (h' : Apart G b c (some k))
    (hl : Apart G a c (some l)) : l ≤ j + k := by
  obtain ⟨⟨q, rfl⟩, -⟩ := h
  obtain ⟨⟨r, rfl⟩, -⟩ := h'
  rw [← SimpleGraph.Walk.length_append]
  exact hl.2 (q.append r)

end Apart

/-- The hop counts of a search are those of walks. -/
theorem apart_hopsFrom {G : SimpleGraph (Fin n)} (hG : ∀ u w, w ∈ adj u ↔ G.Adj u w) :
    Apart G start w (hopsFrom adj start)[w] := by
  cases h : (hopsFrom adj start)[w] with
  | none =>
    rintro ⟨q⟩
    exact hopsFrom_eq_none.1 h _ ((leads_iff hG).2 ⟨q, rfl⟩)
  | some k =>
    obtain ⟨hleads, hleast⟩ := hopsFrom_eq_some.1 h
    exact ⟨(leads_iff hG).1 hleads, fun q => hleast _ ((leads_iff hG).2 ⟨q, rfl⟩)⟩

/-- Vertices that have numbers are as far apart as their numbers. -/
theorem Apart.of_comap {V W : Type} {G : SimpleGraph W} {f : V → W} {a b : V} {o : Option Nat}
    (hf : f.Injective) (hrange : ∀ a b, G.Adj a b → a ∈ Set.range f)
    (h : Apart (G.comap f) a b o) : Apart G (f a) (f b) o := by
  cases o with
  | none => exact fun hr => h ((reachable_comap hf hrange).2 hr)
  | some k =>
    obtain ⟨⟨q, rfl⟩, hleast⟩ := h
    refine ⟨⟨q.map (SimpleGraph.Hom.comap f G), q.length_map _⟩, fun r => ?_⟩
    obtain ⟨q', hq'⟩ := exists_walk_comap hf hrange r
    have hlength : q'.length = r.length := by
      have := congrArg List.length hq'
      rw [List.length_map, SimpleGraph.Walk.length_support,
        SimpleGraph.Walk.length_support] at this
      omega
    exact hlength ▸ hleast q'

end CouplingMap.Graph
