import CouplingMap.Bins
import CouplingMap.Device.Edit

/-!
# Building devices

* `Device.addNodes`, `Device.connectAll`: many edits in order, up to the first that is refused.
* `Device.ofNodes`, `Device.ofParts`, `Device.ofConnections`: devices from lists.
* `Device.Fitting`: lists that make a device as they are. `ofParts_eq` says that a device of such
  lists, which is made at once, is the one that the edits make.
-/

namespace CouplingMap.Device

/-! ## Edits in order -/

/-- Adds nodes in order. -/
def addNodes (d : Device) (ns : List Node) : Except DeviceError Device := ns.foldlM addNode d

/-- Adds connections in order. -/
def connectAll (d : Device) (cs : List Connection) : Except DeviceError Device :=
  cs.foldlM (fun d c => d.connect c.source c.target c.weight) d

/-- The device with the given nodes and no connections. -/
def ofNodes (ns : List Node) : Except DeviceError Device := empty.addNodes ns

/-- The connection between two nodes with the default weight. -/
def unweighted (p : Node × Node) : Connection := ⟨p.1, p.2, defaultWeight⟩

/-- The device with a node that it may have already. -/
def ensureNode (d : Device) (n : Node) : Device :=
  if h : d.contains n = false then d.withNode n h else d

/-- The device of a list of connections: their ends become nodes in the order in which they
appear. -/
def ofConnections (ps : List (Node × Node)) : Except DeviceError Device :=
  ps.foldlM (fun d p => ((d.ensureNode p.1).ensureNode p.2).connect p.1 p.2 defaultWeight) empty

/-! ## Lists that fit together -/

/-- Nodes and connections that make a device as they are: no node is repeated, every connection
can be held, and no two connections have the same ends. -/
structure Fitting (ns : List Node) (cs : List Connection) : Prop where
  nodes_nodup : ns.Nodup
  fits : ∀ c ∈ cs, c.Fits ns
  ends_nodup : (cs.map Connection.ends).Nodup

/-- A number that is different for most pairs of nodes. -/
def endsKey (p : Node × Node) : Nat := p.1.key * 131071 + p.2.key

/-- Whether a device with some nodes may hold a connection, given the bins of the nodes. -/
def fitsIn (bins : Bins Node) (c : Connection) : Bool :=
  bins.holds Node.key c.source && bins.holds Node.key c.target && c.source ≠ c.target &&
    c.weight.isFinite

theorem fitsIn_spread {ns : List Node} {c : Connection} :
    fitsIn (Bins.spread Node.key ns) c = true ↔ c.Fits ns := by
  simp only [fitsIn, Bool.and_eq_true, Bins.holds_spread, decide_eq_true_eq]
  exact ⟨fun ⟨⟨⟨hs, ht⟩, hne⟩, hw⟩ => ⟨hs, ht, hne, hw⟩,
    fun h => ⟨⟨⟨h.source_mem, h.target_mem⟩, h.ne⟩, h.finite⟩⟩

/-- Whether a device with some nodes may hold all of some connections. -/
def decideFits (ns : List Node) (cs : List Connection) : Decidable (∀ c ∈ cs, c.Fits ns) :=
  let bins := Bins.spread Node.key ns
  decidable_of_iff (cs.all (fitsIn bins) = true) (by simp [bins, fitsIn_spread])

instance (ns : List Node) (cs : List Connection) : Decidable (Fitting ns cs) :=
  match Bins.decideNodup Node.key ns with
  | .isFalse h => .isFalse fun f => h f.nodes_nodup
  | .isTrue hn =>
    match decideFits ns cs with
    | .isFalse h => .isFalse fun f => h f.fits
    | .isTrue hf =>
      match Bins.decideNodup endsKey (cs.map Connection.ends) with
      | .isFalse h => .isFalse fun f => h f.ends_nodup
      | .isTrue he => .isTrue ⟨hn, hf, he⟩

/-! ## Devices of lists that fit together -/

/-- The nodes of a list with their places, in bins. -/
def rowBins (ns : List Node) : Bins (Node × Nat) := Bins.spread (fun p => p.1.key) ns.zipIdx

/-- The place of a node, given the bins of the nodes. -/
def placeIn (bins : Bins (Node × Nat)) (n : Node) : Nat :=
  (bins.find? n.key fun p => p.1 = n).elim 0 Prod.snd

/-- The connection between the seats of nodes that sit in the order of a list. -/
def rowLink (bins : Bins (Node × Nat)) (serial : Nat) (c : Connection) : Link :=
  ⟨placeIn bins c.source, placeIn bins c.target, c.weight, serial⟩

theorem getElem?_placeIn {ns : List Node} {n : Node} (h : n ∈ ns) :
    ns[placeIn (rowBins ns) n]? = some n := by
  rw [placeIn, rowBins, Bins.find?_spread (by simp +contextual)]
  cases hf : ns.zipIdx.find? fun p => p.1 = n with
  | none =>
    obtain ⟨i, hi⟩ := List.mem_iff_getElem?.1 h
    have := List.find?_eq_none.1 hf (n, i) (List.mk_mem_zipIdx_iff_getElem?.2 hi)
    simp at this
  | some p =>
    have hp := List.find?_some hf
    have hmem := List.mem_zipIdx_iff_getElem?.1 (List.mem_of_find?_eq_some hf)
    rw [decide_eq_true_iff] at hp
    rw [Option.elim_some, hmem, hp]

theorem placeIn_inj {ns : List Node} {a b : Node} (ha : a ∈ ns) (hb : b ∈ ns) :
    placeIn (rowBins ns) a = placeIn (rowBins ns) b ↔ a = b := by
  refine ⟨fun h => ?_, fun h => by rw [h]⟩
  have hplace := getElem?_placeIn ha
  rw [h, getElem?_placeIn hb] at hplace
  exact (Option.some.inj hplace).symm

/-- The connections between the seats of nodes that sit in the order of a list. -/
def rowLinks (ns : List Node) (cs : List Connection) : List Link :=
  let bins := rowBins ns
  cs.mapIdx (rowLink bins)

theorem getElem?_rowLinks {ns : List Node} {cs : List Connection} {k : Nat} {l : Link} :
    (rowLinks ns cs)[k]? = some l ↔ ∃ c, cs[k]? = some c ∧ rowLink (rowBins ns) k c = l := by
  rw [rowLinks, List.getElem?_mapIdx, Option.map_eq_some_iff]

/-- The device of lists that fit together: nodes sit and connections are kept in their order. -/
def ofFitting (ns : List Node) (cs : List Connection) (h : Fitting ns cs) : Device where
  seats := .ofList ns
  order := List.range ns.length
  directory := ns.zipIdx
  links := .ofList (rowLinks ns cs)
  nextSerial := cs.length
  order_nodup := List.nodup_range
  mem_order := by
    intro i
    rw [List.mem_range, Slots.get?_ofList]
    exact ⟨fun hi => ⟨_, List.getElem?_eq_getElem hi⟩, fun ⟨_, hn⟩ =>
      (List.getElem?_eq_some_iff.1 hn).1⟩
  mem_directory := by
    intro n i
    rw [List.mk_mem_zipIdx_iff_getElem?, Slots.get?_ofList]
  seat_unique := by
    intro n i j hi hj
    rw [Slots.get?_ofList] at hi hj
    have hlt := (List.getElem?_eq_some_iff.1 hi).1
    exact (List.getElem?_inj hlt h.nodes_nodup).1 (hi.trans hj.symm)
  link_fits := by
    intro k l hl
    rw [Slots.get?_ofList, getElem?_rowLinks] at hl
    obtain ⟨c, hc, rfl⟩ := hl
    have hf := h.fits c (List.mem_of_getElem? hc)
    have hs := getElem?_placeIn hf.source_mem
    have ht := getElem?_placeIn hf.target_mem
    refine ⟨?_, ?_, fun e => hf.ne ?_, hf.finite⟩
    · exact List.mem_range.2 (List.getElem?_eq_some_iff.1 hs).1
    · exact List.mem_range.2 (List.getElem?_eq_some_iff.1 ht).1
    · exact (placeIn_inj hf.source_mem hf.target_mem).1 e
  link_unique := by
    intro k m l l' hl hm hruns
    rw [Slots.get?_ofList, getElem?_rowLinks] at hl hm
    obtain ⟨c, hc, rfl⟩ := hl
    obtain ⟨c', hc', rfl⟩ := hm
    have hf := h.fits c (List.mem_of_getElem? hc)
    have hf' := h.fits c' (List.mem_of_getElem? hc')
    obtain ⟨hs, ht⟩ := Link.runs_iff.1 hruns
    have hends : c.ends = c'.ends := Prod.ext ((placeIn_inj hf.source_mem hf'.source_mem).1 hs)
      ((placeIn_inj hf.target_mem hf'.target_mem).1 ht)
    have hmap : (cs.map Connection.ends)[k]? = (cs.map Connection.ends)[m]? := by
      rw [List.getElem?_map, List.getElem?_map, hc, hc', Option.map_some, Option.map_some, hends]
    have hlt : k < (cs.map Connection.ends).length := by
      rw [List.length_map]
      exact (List.getElem?_eq_some_iff.1 hc).1
    exact (List.getElem?_inj hlt h.ends_nodup).1 hmap

/-- The nodes of the lists are in order. -/
@[simp] theorem nodes_ofFitting (ns : List Node) (cs : List Connection) (h : Fitting ns cs) :
    (ofFitting ns cs h).nodes = ns := by
  rw [nodes_eq]
  show (List.range ns.length).filterMap (Slots.ofList ns).get? = ns
  refine filterMap_eq_of_map (List.ext_getElem (by simp) fun i hi hi' => ?_)
  rw [List.length_map] at hi'
  simp [hi']

/-- The device has the connections that are listed, in order. -/
@[simp] theorem connections_ofFitting (ns : List Node) (cs : List Connection)
    (h : Fitting ns cs) : (ofFitting ns cs h).connections = cs := by
  rw [connections_eq]
  show (Slots.ofList (rowLinks ns cs)).toList.filterMap
    (Link.connection? (Slots.ofList ns).get?) = cs
  rw [Slots.toList_ofList]
  refine filterMap_eq_of_map (List.ext_getElem? fun k => ?_)
  rw [List.getElem?_map, List.getElem?_map, rowLinks, List.getElem?_mapIdx]
  cases hc : cs[k]? with
  | none => rfl
  | some c =>
    have hf := h.fits c (List.mem_of_getElem? hc)
    refine congrArg some (Link.connection?_eq_some.2 ⟨?_, ?_, rfl⟩)
    · rw [Slots.get?_ofList]
      exact getElem?_placeIn hf.source_mem
    · rw [Slots.get?_ofList]
      exact getElem?_placeIn hf.target_mem

/-- The device with the given nodes and connections. Lists that fit together are taken as they are;
others are added one by one, which tells the first problem. -/
def ofParts (ns : List Node) (cs : List Connection) : Except DeviceError Device :=
  if h : Fitting ns cs then .ok (ofFitting ns cs h)
  else do (← ofNodes ns).connectAll cs

/-! ## One by one -/

theorem Fitting.left {ns ms : List Node} (h : Fitting (ns ++ ms) []) : Fitting ns [] :=
  ⟨(List.nodup_append.1 h.nodes_nodup).1, by simp, .nil⟩

theorem Fitting.prior {ns : List Node} {cs ds : List Connection} (h : Fitting ns (cs ++ ds)) :
    Fitting ns cs := by
  have hends := h.ends_nodup
  rw [List.map_append] at hends
  exact ⟨h.nodes_nodup, fun c hc => h.fits c (List.mem_append_left _ hc),
    (List.nodup_append.1 hends).1⟩

/-- One node more at the end leaves the others in their places. -/
theorem placeIn_concat {ns : List Node} {n a : Node} (hns : (ns ++ [n]).Nodup) (ha : a ∈ ns) :
    placeIn (rowBins (ns ++ [n])) a = placeIn (rowBins ns) a := by
  have hold := getElem?_placeIn ha
  have hnew := getElem?_placeIn (List.mem_append_left [n] ha)
  rw [← List.getElem?_append_left (List.getElem?_eq_some_iff.1 hold).1] at hold
  have hlt := (List.getElem?_eq_some_iff.1 hnew).1
  exact (List.getElem?_inj hlt hns).1 (hnew.trans hold.symm)

theorem rowLinks_concat {ns : List Node} {cs : List Connection} {n : Node} (h : Fitting ns cs)
    (hns : (ns ++ [n]).Nodup) : rowLinks (ns ++ [n]) cs = rowLinks ns cs := by
  refine List.ext_getElem? fun k => ?_
  rw [rowLinks, rowLinks, List.getElem?_mapIdx, List.getElem?_mapIdx]
  cases hc : cs[k]? with
  | none => rfl
  | some c =>
    have hf := h.fits c (List.mem_of_getElem? hc)
    rw [Option.map_some, Option.map_some, rowLink, rowLink, placeIn_concat hns hf.source_mem,
      placeIn_concat hns hf.target_mem]

/-- One node more sits in the next place of a row. -/
theorem withNode_ofFitting {ns : List Node} {cs : List Connection} {n : Node} (h : Fitting ns cs)
    (h' : Fitting (ns ++ [n]) cs) (hn : (ofFitting ns cs h).contains n = false) :
    (ofFitting ns cs h).withNode n hn = ofFitting (ns ++ [n]) cs h' := by
  have hnext : (Slots.ofList ns).next = ns.length := Slots.next_ofList ns
  refine Device.ext (Slots.insert_ofList ns n) ?_ ?_ ?_ rfl
  · show List.range ns.length ++ [(Slots.ofList ns).next] = List.range (ns ++ [n]).length
    rw [hnext, List.length_append, List.length_singleton, List.range_succ]
  · show ns.zipIdx ++ [(n, (Slots.ofList ns).next)] = (ns ++ [n]).zipIdx
    rw [hnext, List.zipIdx_append, Nat.zero_add]
    rfl
  · show Slots.ofList (rowLinks ns cs) = Slots.ofList (rowLinks (ns ++ [n]) cs)
    rw [rowLinks_concat h h'.nodes_nodup]

/-- Nodes that are added one by one sit in a row. -/
theorem addNodes_ofFitting {ns ms all : List Node} (heq : ns ++ ms = all) (h : Fitting ns [])
    (h' : Fitting all []) : (ofFitting ns [] h).addNodes ms = .ok (ofFitting all [] h') := by
  induction ms generalizing ns with
  | nil =>
    rw [List.append_nil] at heq
    subst heq
    rfl
  | cons m ms ih =>
    have heq' : (ns ++ [m]) ++ ms = all := by rw [← heq, List.append_assoc]; rfl
    have hm : Fitting (ns ++ [m]) [] := Fitting.left (heq' ▸ h')
    have hnone : (ofFitting ns [] h).contains m = false := by
      rw [contains_eq_false, nodes_ofFitting]
      intro hmem
      exact (List.nodup_append.1 hm.nodes_nodup).2.2 m hmem m (List.mem_singleton_self m) rfl
    have hadd : (ofFitting ns [] h).addNode m = .ok (ofFitting (ns ++ [m]) [] hm) := by
      rw [addNode, dif_pos hnone, withNode_ofFitting h hm hnone]
    rw [addNodes, List.foldlM_cons, hadd]
    exact ih heq' hm

/-- Nodes sit in the order of the list. -/
theorem get?_seats_ofFitting {ns : List Node} {cs : List Connection} {n : Node}
    (h : Fitting ns cs) (hn : n ∈ ns) :
    (ofFitting ns cs h).seats.get? (placeIn (rowBins ns) n) = some n :=
  (Slots.get?_ofList ..).trans (getElem?_placeIn hn)

/-- A connection that fits the nodes also fits their seats. -/
theorem fits_rowLink {ns : List Node} {cs : List Connection} {c : Connection} (h : Fitting ns cs)
    (hc : c.Fits ns) (serial : Nat) :
    (rowLink (rowBins ns) serial c).Fits (ofFitting ns cs h).order where
  source_mem := (ofFitting ns cs h).mem_order.2 ⟨_, get?_seats_ofFitting h hc.source_mem⟩
  target_mem := (ofFitting ns cs h).mem_order.2 ⟨_, get?_seats_ofFitting h hc.target_mem⟩
  ne e := hc.ne ((placeIn_inj hc.source_mem hc.target_mem).1 e)
  finite := hc.finite

/-- One connection more takes the next slot of a row. -/
theorem connect_ofFitting {ns : List Node} {cs : List Connection} {c : Connection}
    (h : Fitting ns cs) (h' : Fitting ns (cs ++ [c])) :
    (ofFitting ns cs h).connect c.source c.target c.weight = .ok (ofFitting ns (cs ++ [c]) h') := by
  have hf := h'.fits c (List.mem_append_right _ (List.mem_singleton_self c))
  have hs := get?_seats_ofFitting h hf.source_mem
  have ht := get?_seats_ofFitting h hf.target_mem
  have hl := fits_rowLink h hf cs.length
  have hnone : (ofFitting ns cs h).linkAt? (placeIn (rowBins ns) c.source)
      (placeIn (rowBins ns) c.target) = none := by
    rw [linkAt?_eq_none_iff hs ht, connections_ofFitting]
    intro x hx
    have hends := h'.ends_nodup
    rw [List.map_append, List.nodup_append] at hends
    have hne := hends.2.2 x.ends (List.mem_map_of_mem hx) c.ends (List.mem_singleton_self _)
    rw [Connection.joins, decide_eq_false_iff_not]
    exact fun e => hne (Prod.ext e.1 e.2)
  refine (connect_eq_ok hs ht hl).trans (congrArg Except.ok ((put_of_none hl hnone).trans ?_))
  refine Device.ext rfl rfl rfl ?_ ?_
  · show (Slots.ofList (rowLinks ns cs)).insert (rowLink (rowBins ns) cs.length c) =
      Slots.ofList (rowLinks ns (cs ++ [c]))
    rw [Slots.insert_ofList, rowLinks, rowLinks, List.mapIdx_concat]
  · show cs.length + 1 = (cs ++ [c]).length
    rw [List.length_append, List.length_singleton]

/-- Connections that are added one by one take slots in a row. -/
theorem connectAll_ofFitting {ns : List Node} {cs ds all : List Connection} (heq : cs ++ ds = all)
    (h : Fitting ns cs) (h' : Fitting ns all) :
    (ofFitting ns cs h).connectAll ds = .ok (ofFitting ns all h') := by
  induction ds generalizing cs with
  | nil =>
    rw [List.append_nil] at heq
    subst heq
    rfl
  | cons c ds ih =>
    have heq' : (cs ++ [c]) ++ ds = all := by rw [← heq, List.append_assoc]; rfl
    have hc : Fitting ns (cs ++ [c]) := Fitting.prior (heq' ▸ h')
    rw [connectAll, List.foldlM_cons, connect_ofFitting h hc]
    exact ih heq' hc

/-- Lists that fit together make the same device at once and one by one. -/
theorem ofParts_eq (ns : List Node) (cs : List Connection) :
    ofParts ns cs = (ofNodes ns >>= fun d => d.connectAll cs) := by
  unfold ofParts
  split
  · rename_i h
    have hns : Fitting ns [] := ⟨h.nodes_nodup, by simp, .nil⟩
    have hnone : Fitting [] [] := ⟨.nil, by simp, .nil⟩
    have hempty : empty = ofFitting [] [] hnone := rfl
    rw [ofNodes, hempty, addNodes_ofFitting (List.nil_append ns) hnone hns]
    exact (connectAll_ofFitting (List.nil_append cs) hns h).symm
  · rfl

end CouplingMap.Device
