import CouplingMap.Proofs.Device.Merge

/-!
# Devices of lists of connections

A device can be made of connections alone: the ends of each one become nodes just before it is
added, unless they are nodes already. It makes no difference to add all nodes first.

* `Device.appearances`: the ends of connections by their first appearance.
* `Device.ensureNode_ofFitting`, `Device.connectEnds_ofFitting`: one node more, and one connection
  more.
* `Device.FirstLoop`: the first connection from a node to itself.
* `Device.ofConnections_exact`: which lists make a device, and that it is the device of the ends and
  of the connections without repetitions.
-/

namespace CouplingMap.Device

open Connection

variable {ns : List Node} {cs : List Connection} {ps : List (Node × Node)} {p : Node × Node}
  {n : Node}

/-! ## Nodes by their first appearance -/

/-- The ends of pairs by their first appearance, where the first end of a pair comes before the
second. -/
def appearances (ps : List (Node × Node)) : List Node := (ps.flatMap fun p => [p.1, p.2]).eraseDups

/-- A list of nodes with one at its end that it may have already. -/
def enlist (ns : List Node) (n : Node) : List Node := if n ∈ ns then ns else ns ++ [n]

theorem eraseDups_concat (ns : List Node) (n : Node) :
    (ns ++ [n]).eraseDups = enlist ns.eraseDups n := by
  rw [enlist, List.eraseDups_append]
  by_cases hn : n ∈ ns <;> simp [List.removeAll, hn, List.eraseDups_cons]

theorem appearances_concat (ps : List (Node × Node)) (p : Node × Node) :
    appearances (ps ++ [p]) = enlist (enlist (appearances ps) p.1) p.2 := by
  have hends : (ps ++ [p]).flatMap (fun p => [p.1, p.2]) =
      ps.flatMap (fun p => [p.1, p.2]) ++ [p.1] ++ [p.2] := by simp
  rw [appearances, hends, eraseDups_concat, eraseDups_concat, appearances]

theorem mem_appearances : n ∈ appearances ps ↔ ∃ p ∈ ps, n = p.1 ∨ n = p.2 := by
  simp [appearances]

theorem mem_enlist {m : Node} : m ∈ enlist ns n ↔ m ∈ ns ∨ m = n := by
  unfold enlist
  split
  · rename_i hn
    exact ⟨.inl, fun h => h.elim id fun h => h ▸ hn⟩
  · rw [List.mem_append, List.mem_singleton]

/-! ## One more -/

/-- Connections fit together with one node more. -/
theorem Fitting.enlist (h : Fitting ns cs) (n : Node) : Fitting (enlist ns n) cs := by
  refine ⟨?_, fun c hc => ?_, h.ends_nodup⟩
  · unfold Device.enlist
    split
    · exact h.nodes_nodup
    · rename_i hn
      refine List.nodup_append.2 ⟨h.nodes_nodup, List.nodup_singleton n, ?_⟩
      rintro m hm _ hn' rfl
      exact hn (List.mem_singleton.1 hn' ▸ hm)
  · have hf := h.fits c hc
    exact ⟨mem_enlist.2 (.inl hf.source_mem), mem_enlist.2 (.inl hf.target_mem), hf.ne, hf.finite⟩

/-- One node more goes to the end of a row, unless it is there. -/
theorem ensureNode_ofFitting (h : Fitting ns cs) (n : Node) :
    (ofFitting ns cs h).ensureNode n = ofFitting (enlist ns n) cs (h.enlist n) := by
  have henlist := h.enlist n
  unfold ensureNode
  by_cases hn : n ∈ ns
  · have hsame : enlist ns n = ns := if_pos hn
    rw [dif_neg]
    · simp only [hsame]
    · rw [contains_eq_false, nodes_ofFitting]
      exact not_not.2 hn
  · have hmore : enlist ns n = ns ++ [n] := if_neg hn
    have hnone : (ofFitting ns cs h).contains n = false := by
      rwa [contains_eq_false, nodes_ofFitting]
    rw [dif_pos hnone, withNode_ofFitting h (hmore ▸ henlist)]
    simp only [hmore]

/-- A connection with the default weight fits between different nodes. -/
theorem fits_unweighted (hs : p.1 ∈ ns) (ht : p.2 ∈ ns) (hne : p.1 ≠ p.2) :
    (unweighted p).Fits ns :=
  ⟨hs, ht, hne, (by decide : defaultWeight.isFinite = true)⟩

/-- Adds a connection with the default weight after its ends. -/
def connectEnds (d : Device) (p : Node × Node) : Except DeviceError Device :=
  ((d.ensureNode p.1).ensureNode p.2).connect p.1 p.2 defaultWeight

theorem ofConnections_append (ps qs : List (Node × Node)) :
    ofConnections (ps ++ qs) = ofConnections ps >>= fun d => qs.foldlM connectEnds d :=
  List.foldlM_append

/-- One connection more is merged into a row after its ends. -/
theorem connectEnds_ofFitting (h : Fitting ns cs) (hne : p.1 ≠ p.2) :
    ∃ h', (ofFitting ns cs h).connectEnds p =
      .ok (ofFitting (enlist (enlist ns p.1) p.2) (merge cs (unweighted p)) h') := by
  have hends := (h.enlist p.1).enlist p.2
  have hs : p.1 ∈ enlist (enlist ns p.1) p.2 := mem_enlist.2 (.inl (mem_enlist.2 (.inr rfl)))
  have ht : p.2 ∈ enlist (enlist ns p.1) p.2 := mem_enlist.2 (.inr rfl)
  rw [connectEnds, ensureNode_ofFitting, ensureNode_ofFitting]
  exact ⟨_, connect_merge hends (fits_unweighted hs ht hne)⟩

/-- A connection from a node to itself is refused, although its ends are added before. -/
theorem connectEnds_loop (h : Fitting ns cs) (n : Node) :
    (ofFitting ns cs h).connectEnds (n, n) = .error (.selfConnection n) := by
  have hends := (h.enlist n).enlist n
  have hn := get?_seats_ofFitting hends (mem_enlist.2 (.inr rfl))
  rw [connectEnds, ensureNode_ofFitting, ensureNode_ofFitting, connect, seat_eq_ok hn]
  exact dif_pos rfl

/-! ## Lists of connections -/

/-- Pairs of different nodes make the row of their ends and of the connections between them, where
repetitions are merged. -/
theorem ofConnections_ofFitting (h : ∀ p ∈ ps, p.1 ≠ p.2) : ∃ h',
    ofConnections ps = .ok (ofFitting (appearances ps) (mergeAll (ps.map unweighted)) h') := by
  induction ps using List.reverseRecOn with
  | nil =>
    have hempty : Fitting [] [] := ⟨.nil, by simp, .nil⟩
    exact ⟨hempty, rfl⟩
  | append_singleton ps p ih =>
    rw [List.forall_mem_append, List.forall_mem_singleton] at h
    obtain ⟨hps, hfold⟩ := ih h.1
    obtain ⟨hp, hconnect⟩ := connectEnds_ofFitting hps h.2
    have hmerge : mergeAll ((ps ++ [p]).map unweighted) =
        merge (mergeAll (ps.map unweighted)) (unweighted p) := by
      rw [List.map_append, List.map_singleton, mergeAll_concat]
    simp only [hmerge, appearances_concat]
    refine ⟨hp, ?_⟩
    rw [ofConnections_append, hfold]
    exact congrArg (· >>= pure) hconnect

/-- Merged connections with the default weight are those of the pairs without repetitions. -/
theorem mergeAll_unweighted (ps : List (Node × Node)) :
    mergeAll (ps.map unweighted) = ps.eraseDups.map unweighted := by
  have hends : (ps.map unweighted).map ends = ps := by
    rw [List.map_map]
    exact List.map_id ps
  have hweight : ∀ c ∈ mergeAll (ps.map unweighted), (unweighted ∘ ends) c = id c := by
    intro c hc
    have hmem := List.mem_of_mem_filter (List.mem_of_getLast? (mem_mergeAll.1 hc))
    obtain ⟨p, -, rfl⟩ := List.mem_map.1 hmem
    rfl
  have hmap := congrArg (List.map unweighted) (map_ends_mergeAll (ps.map unweighted))
  rwa [hends, List.map_map, List.map_congr_left hweight, List.map_id] at hmap

/-- Pairs of different nodes make the device that their ends and the connections between them make,
if all nodes are added first. -/
theorem ofConnections_eq_ofParts (h : ∀ p ∈ ps, p.1 ≠ p.2) :
    ofConnections ps = ofParts (appearances ps) (ps.map unweighted) ∧
      ∃ d, ofConnections ps = .ok d ∧ d.nodes = appearances ps ∧
        d.connections = ps.eraseDups.map unweighted := by
  obtain ⟨hrow, hd⟩ := ofConnections_ofFitting h
  obtain ⟨_, he⟩ : ∃ h', ofParts (appearances ps) (ps.map unweighted) =
      .ok (ofFitting (appearances ps) (mergeAll (ps.map unweighted)) h') := by
    refine ofParts_merge hrow.nodes_nodup (List.forall_mem_map.2 fun p hp => ?_)
    exact fits_unweighted (mem_appearances.2 ⟨p, hp, .inl rfl⟩)
      (mem_appearances.2 ⟨p, hp, .inr rfl⟩) (h p hp)
  refine ⟨hd.trans he.symm, _, hd, nodes_ofFitting .., ?_⟩
  rw [connections_ofFitting, mergeAll_unweighted]

/-- The first pair of a node and itself. -/
def FirstLoop (ps : List (Node × Node)) (n : Node) : Prop :=
  ∃ before after, ps = before ++ (n, n) :: after ∧ ∀ p ∈ before, p.1 ≠ p.2

/-- A list that has a node paired with itself has a first one. -/
theorem exists_firstLoop (h : ¬ ∀ p ∈ ps, p.1 ≠ p.2) : ∃ n, FirstLoop ps n := by
  have hsome : ps.find? (fun p => p.1 = p.2) ≠ none := by simpa using h
  obtain ⟨⟨n, m⟩, hp⟩ := Option.ne_none_iff_exists'.1 hsome
  obtain ⟨heq, before, after, hsplit, hbefore⟩ := List.find?_eq_some_iff_append.1 hp
  obtain rfl : n = m := of_decide_eq_true heq
  exact ⟨n, before, after, hsplit, by simpa using hbefore⟩

/-- The first connection from a node to itself is reported. -/
theorem FirstLoop.ofConnections (h : FirstLoop ps n) :
    ofConnections ps = .error (.selfConnection n) := by
  obtain ⟨before, after, rfl, hbefore⟩ := h
  obtain ⟨hrow, hd⟩ := ofConnections_ofFitting hbefore
  rw [ofConnections_append, hd]
  exact congrArg (· >>= after.foldlM connectEnds) (connectEnds_loop hrow n)

/-- A list of connections is refused just if it connects a node to itself, and the first such node
is reported. Other lists make the device that is made of the ends of the connections, by their first
appearance, and the connections: a connection that is repeated is listed once, in its first
place. -/
theorem ofConnections_exact (ps : List (Node × Node)) :
    (∀ e, ofConnections ps = .error e ↔ ∃ n, FirstLoop ps n ∧ e = .selfConnection n) ∧
    ((∀ p ∈ ps, p.1 ≠ p.2) →
      ofConnections ps = ofParts (appearances ps) (ps.map unweighted) ∧
      ∃ d, ofConnections ps = .ok d ∧ d.nodes = appearances ps ∧
        d.connections = ps.eraseDups.map unweighted) := by
  refine ⟨fun e => ?_, ofConnections_eq_ofParts⟩
  constructor
  · intro he
    by_cases h : ∀ p ∈ ps, p.1 ≠ p.2
    · obtain ⟨_, hd⟩ := ofConnections_ofFitting h
      rw [hd] at he
      contradiction
    · obtain ⟨n, hn⟩ := exists_firstLoop h
      exact ⟨n, hn, Except.error.inj (he.symm.trans hn.ofConnections)⟩
  · rintro ⟨n, hn, rfl⟩
    exact hn.ofConnections

end CouplingMap.Device
