import CouplingMap.Device.Query
import CouplingMap.Proofs.Device.Network

/-!
# Devices are networks

The network of a device has its nodes, and the weights that are found in its store. Every edit of
a device is the same edit of its network, so stores that are left by earlier edits (slots that were
freed and taken again, seats of nodes that are gone) never show.

* `Device.network`: the network that a device stands for.
* `Device.map_addNode`, `Device.map_removeNode`, `Device.map_connect`, `Device.map_disconnect`: one
  edit, with its error.
* `Device.map_start`, `Device.runAll_network`: constructors, and many edits.
* `Device.Agrees`, `Device.refines_network`: what can be asked about a device after edits.
-/

namespace CouplingMap.Device

variable {d : Device} {a b n : Node} {w : Binary64} {c : Connection} {i j : Nat} {N : Network}

/-! ## The network of a device -/

/-- The weights that are found are those of the connections. -/
theorem map_find?_eq_some :
    (d.find? a b).map Connection.weight = some w ↔ (⟨a, b, w⟩ : Connection) ∈ d.connections := by
  simp only [Option.map_eq_some_iff, find?_eq_some_iff, Connection.joins_iff]
  constructor
  · rintro ⟨c, ⟨hc, rfl, rfl⟩, rfl⟩
    exact hc
  · intro h
    exact ⟨_, ⟨h, rfl, rfl⟩, rfl⟩

/-- The network that a device stands for. -/
def network (d : Device) : Network where
  nodes := d.nodes
  weight? a b := (d.find? a b).map Connection.weight
  nodes_nodup := d.nodes_nodup
  fits := fun h => fits_of_mem (map_find?_eq_some.1 h)

theorem mem_network (h : d.seats.get? i = some n) : n ∈ d.network.nodes := mem_nodes.2 ⟨i, h⟩

theorem weight?_network :
    d.network.weight? a b = some w ↔ (⟨a, b, w⟩ : Connection) ∈ d.connections :=
  map_find?_eq_some

/-- The weight of a pair of nodes is that of the connection between their seats. -/
theorem linkAt?_weight (ha : d.seats.get? i = some a) (hb : d.seats.get? j = some b) :
    (d.linkAt? i j).map Link.weight = d.network.weight? a b := by
  show _ = (d.find? a b).map Connection.weight
  rw [find?_eq_linkAt? ha hb, Option.map_map]
  rfl

/-- A device stands for the network with the same nodes and weights. -/
theorem network_eq (hn : d.nodes = N.nodes)
    (hw : ∀ a b w, (⟨a, b, w⟩ : Connection) ∈ d.connections ↔ N.weight? a b = some w) :
    d.network = N := by
  refine Network.ext hn ?_
  funext a b
  refine Option.ext fun w => ?_
  rw [weight?_network, hw]

/-! ## Adding nodes -/

theorem network_withNode (h : d.contains n = false) (h' : n ∉ d.network.nodes) :
    (d.withNode n h).network = d.network.withNode n h' := by
  refine network_eq (nodes_withNode d n h) fun a b w => ?_
  rw [connections_withNode]
  exact weight?_network.symm

/-- A device and its network refuse the same nodes. -/
theorem map_addNode (d : Device) (n : Node) :
    (d.addNode n).map network = d.network.addNode n := by
  unfold addNode Network.addNode
  by_cases hn : n ∈ d.network.nodes
  · rw [dif_neg (Bool.not_eq_false _ ▸ contains_iff.2 hn), dif_pos hn]
    rfl
  · rw [dif_pos (contains_eq_false.2 hn), dif_neg hn]
    exact congrArg Except.ok (network_withNode _ _)

theorem network_ensureNode (d : Device) (n : Node) :
    (d.ensureNode n).network = d.network.ensureNode n := by
  unfold ensureNode Network.ensureNode
  by_cases hn : n ∈ d.network.nodes
  · rw [dif_neg (Bool.not_eq_false _ ▸ contains_iff.2 hn), dif_pos hn]
  · rw [dif_pos (contains_eq_false.2 hn), dif_neg hn]
    exact network_withNode _ _

/-! ## Adding connections -/

/-- Two nodes have seats, or there is a first one that has none. -/
theorem seats_cases (d : Device) (a b : Node) :
    a ∉ d.network.nodes ∨ (∃ i, d.seats.get? i = some a ∧ b ∉ d.network.nodes) ∨
      ∃ i j, d.seats.get? i = some a ∧ d.seats.get? j = some b := by
  by_cases ha : a ∈ d.nodes
  · obtain ⟨i, hi⟩ := mem_nodes.1 ha
    by_cases hb : b ∈ d.nodes
    · obtain ⟨j, hj⟩ := mem_nodes.1 hb
      exact Or.inr (Or.inr ⟨i, j, hi, hj⟩)
    · exact Or.inr (Or.inl ⟨i, hi, hb⟩)
  · exact Or.inl ha

/-- A new weight is that of the connection with the ends, and other weights do not change. -/
theorem mem_connections_reweigh {l : Link} {m : Link} (hl : l.Fits d.order)
    (hc : l.connection? d.seats.get? = some c) (hm : d.linkAt? l.source l.target = some m)
    (x : Connection) : x ∈ (d.reweigh l hl).connections ↔
      if x.joins c.source c.target then x = c else x ∈ d.connections := by
  obtain ⟨hs, ht, -⟩ := Link.connection?_eq_some.1 hc
  have hold : (⟨c.source, c.target, m.weight⟩ : Connection) ∈ d.connections := by
    rw [← map_find?_eq_some, find?_eq_linkAt? hs ht, hm]
    rfl
  rw [connections_reweigh hl hc, List.mem_map]
  constructor
  · rintro ⟨y, hy, rfl⟩
    by_cases hj : y.joins c.source c.target = true
    · obtain ⟨hys, hyt⟩ := Connection.joins_iff.1 hj
      rw [if_pos hj, hys, hyt, if_pos (Connection.joins_iff.2 ⟨rfl, rfl⟩)]
    · rw [if_neg hj, if_neg hj]
      exact hy
  · intro hx
    split at hx
    · obtain rfl := hx
      refine ⟨_, hold, ?_⟩
      rw [if_pos (Connection.joins_iff.2 ⟨rfl, rfl⟩)]
    · rename_i hj
      exact ⟨x, hx, if_neg hj⟩

theorem mem_connections_enter {l : Link} (hl : l.Fits d.order)
    (hc : l.connection? d.seats.get? = some c) (hn : d.linkAt? l.source l.target = none)
    (x : Connection) : x ∈ (d.enter l hl hn).connections ↔
      if x.joins c.source c.target then x = c else x ∈ d.connections := by
  obtain ⟨hs, ht, -⟩ := Link.connection?_eq_some.1 hc
  obtain ⟨before, after, hold, hnew⟩ := connections_enter hl hn hc
  have hmem : x ∈ (d.enter l hl hn).connections ↔ x = c ∨ x ∈ d.connections := by
    rw [hnew, hold]
    exact List.perm_middle.mem_iff.trans List.mem_cons
  rw [hmem]
  split
  · rename_i hj
    refine or_iff_left fun hx => ?_
    rw [(linkAt?_eq_none_iff hs ht).1 hn x hx] at hj
    contradiction
  · rename_i hj
    refine or_iff_right fun hx => hj ?_
    exact hx ▸ Connection.joins_iff.2 ⟨rfl, rfl⟩

/-- After a connection is put, its ends have its weight, and other weights do not change. -/
theorem mem_connections_put {l : Link} (hl : l.Fits d.order)
    (hc : l.connection? d.seats.get? = some c) (x : Connection) :
    x ∈ (d.put l hl).connections ↔
      if x.joins c.source c.target then x = c else x ∈ d.connections := by
  unfold put
  split
  · rename_i m hm
    exact mem_connections_reweigh hl hc hm x
  · rename_i hn
    exact mem_connections_enter hl hc hn x

/-- A device and its network refuse the same connections, for the same reason. -/
theorem map_connect (d : Device) (a b : Node) (w : Binary64) :
    (d.connect a b w).map network = d.network.connect a b w := by
  unfold Network.connect
  rcases d.seats_cases a b with ha | ⟨i, hi, hb⟩ | ⟨i, j, hi, hj⟩
  · rw [connect, seat_eq_error ha, dif_pos ha]
    rfl
  · rw [connect, seat_eq_ok hi, seat_eq_error hb, dif_neg (not_not.2 (mem_network hi)), dif_pos hb]
    rfl
  · rw [dif_neg (not_not.2 (mem_network hi)), dif_neg (not_not.2 (mem_network hj)), connect,
      seat_eq_ok hi, seat_eq_ok hj]
    show (if hij : i = j then _ else _ : Except DeviceError Device).map network = _
    by_cases hij : i = j
    · rw [dif_pos hij, dif_pos ((seat_eq_iff hi hj).2 hij)]
      rfl
    rw [dif_neg hij, dif_neg fun h => hij ((seat_eq_iff hi hj).1 h)]
    by_cases hw : w.isFinite = true
    · rw [dif_pos hw, dif_neg (Bool.not_eq_false _ ▸ hw)]
      refine congrArg Except.ok (network_eq (nodes_put ..) fun x y v => ?_)
      have hc : Link.connection? d.seats.get? ⟨i, j, w, d.nextSerial⟩ = some ⟨a, b, w⟩ :=
        Link.connection?_eq_some.2 ⟨hi, hj, rfl⟩
      rw [mem_connections_put _ hc, Network.weight?_withWeight]
      by_cases hxy : x = a ∧ y = b
      · obtain ⟨rfl, rfl⟩ := hxy
        simp [Connection.joins, eq_comm]
      · rw [if_neg hxy, if_neg fun h => hxy (Connection.joins_iff.1 h), weight?_network]
    · rw [dif_neg hw, dif_pos (eq_false_of_ne_true hw)]
      rfl

/-! ## Removing -/

/-- A node goes with the weights of its pairs. -/
theorem map_removeNode (d : Device) (n : Node) :
    (d.removeNode n).map network = d.network.removeNode n := by
  unfold Network.removeNode
  by_cases hn : n ∈ d.network.nodes
  · obtain ⟨e, he, hnodes, hconns⟩ := removeNode_eq_ok hn
    rw [he, if_pos hn]
    refine congrArg Except.ok (network_eq hnodes fun a b w => ?_)
    rw [hconns, List.mem_filter, Bool.not_eq_true', Connection.touches_eq_false,
      Network.weight?_without]
    by_cases hab : a = n ∨ b = n
    · rw [if_pos hab]
      exact iff_of_false (fun h => not_or.2 h.2 hab) (by simp)
    · rw [if_neg hab, weight?_network, and_iff_left (not_or.1 hab)]
  · rw [removeNode, seat_eq_error hn, if_neg hn]
    rfl

/-- A device and its network lack the same connections. -/
theorem map_disconnect (d : Device) (a b : Node) :
    (d.disconnect a b).map network = d.network.disconnect a b := by
  unfold Network.disconnect
  rcases d.seats_cases a b with ha | ⟨i, hi, hb⟩ | ⟨i, j, hi, hj⟩
  · rw [disconnect, seat_eq_error ha, if_pos ha]
    rfl
  · rw [disconnect, seat_eq_ok hi, seat_eq_error hb, if_neg (not_not.2 (mem_network hi)), if_pos hb]
    rfl
  · rw [if_neg (not_not.2 (mem_network hi)), if_neg (not_not.2 (mem_network hj)), disconnect,
      seat_eq_ok hi, seat_eq_ok hj]
    have hweight := linkAt?_weight hi hj
    show (if (d.linkAt? i j).isSome = true then _ else _ : Except DeviceError _).map network = _
    cases hl : d.linkAt? i j with
    | none =>
      rw [hl, Option.map_none] at hweight
      rw [if_pos hweight.symm]
      rfl
    | some l =>
      rw [hl, Option.map_some] at hweight
      rw [← hweight, if_neg (Option.some_ne_none _)]
      refine congrArg Except.ok (network_eq (nodes_discard ..) fun x y v => ?_)
      rw [connections_cutLink hi hj, List.mem_filter, Network.weight?_withWeight]
      by_cases hxy : x = a ∧ y = b
      · simp [hxy, Connection.joins]
      · rw [if_neg hxy, weight?_network]
        refine and_iff_left ?_
        rw [Bool.not_eq_true', Connection.joins, decide_eq_false_iff_not]
        exact hxy

/-! ## Constructors and runs -/

/-- Steps that correspond make folds that correspond. -/
theorem map_foldlM {α σ τ ε : Type} {f : σ → α → Except ε σ} {g : τ → α → Except ε τ} {φ : σ → τ}
    (h : ∀ s x, (f s x).map φ = g (φ s) x) (xs : List α) (s : σ) :
    (xs.foldlM f s).map φ = xs.foldlM g (φ s) := by
  induction xs generalizing s with
  | nil => rfl
  | cons x xs ih =>
    rw [List.foldlM_cons, List.foldlM_cons, ← h]
    cases f s x with
    | error _ => rfl
    | ok t => exact ih t

theorem network_empty : empty.network = Network.empty :=
  network_eq rfl fun a b w => ⟨fun h => absurd h List.not_mem_nil, fun h => by contradiction⟩

theorem map_ofNodes (ns : List Node) : (ofNodes ns).map network = Network.ofNodes ns := by
  rw [ofNodes, addNodes, map_foldlM map_addNode, network_empty]
  rfl

theorem map_connectAll (d : Device) (cs : List Connection) :
    (d.connectAll cs).map network = d.network.connectAll cs :=
  map_foldlM (fun d c => d.map_connect c.source c.target c.weight) cs d

theorem map_ofConnections (ps : List (Node × Node)) :
    (ofConnections ps).map network = Network.ofConnections ps := by
  unfold ofConnections Network.ofConnections
  rw [← network_empty]
  refine map_foldlM (fun d p => ?_) ps empty
  rw [map_connect, network_ensureNode, network_ensureNode]

theorem map_ofParts (ns : List Node) (cs : List Connection) :
    (ofParts ns cs).map network = Network.ofParts ns cs := by
  rw [ofParts_eq, Network.ofParts, ← map_ofNodes]
  cases ofNodes ns with
  | error _ => rfl
  | ok d => exact d.map_connectAll cs

/-- A constructor makes a device just if it makes a network, which the device stands for. -/
theorem map_start (s : Start) : (start s).map network = Network.start s := by
  cases s with
  | empty => exact congrArg Except.ok network_empty
  | nodes ns => exact map_ofNodes ns
  | connections ps => exact map_ofConnections ps
  | parts ns ps => exact map_ofParts ns _
  | weightedParts ns cs => exact map_ofParts ns cs

/-- An edit of a device is the same edit of its network. -/
theorem map_edit (d : Device) (e : Edit) : (d.edit e).map network = d.network.edit e := by
  cases e with
  | addNode n => exact d.map_addNode n
  | removeNode n => exact d.map_removeNode n
  | connect a b => exact d.map_connect a b defaultWeight
  | connectWeighted a b w => exact d.map_connect a b w
  | disconnect a b => exact d.map_disconnect a b

/-- Edits of a device do to its network what the same edits of the network do. -/
theorem runAll_network (d : Device) (es : List Edit) :
    Edit.runAll Network.edit d.network es =
      ((Edit.runAll edit d es).1.network, (Edit.runAll edit d es).2) := by
  induction es generalizing d with
  | nil => rfl
  | cons e es ih =>
    have hstep := d.map_edit e
    unfold Edit.runAll
    cases he : d.edit e with
    | ok d' =>
      rw [he] at hstep
      rw [← hstep]
      exact congrArg (fun r => (r.1, none :: r.2)) (ih d')
    | error x =>
      rw [he] at hstep
      rw [← hstep]
      exact congrArg (fun r => (r.1, some x :: r.2)) (ih d)

/-! ## Questions -/

theorem map_position (d : Device) (n : Node) :
    (d.position n).map Fin.val = d.network.position n := by
  unfold position Network.position
  cases hi : d.place? n with
  | none => exact (if_neg (place?_eq_none.1 hi)).symm
  | some i =>
    obtain rfl := place?_eq_some.1 hi
    have hmem : d.nodeAt i ∈ d.network.nodes := nodeAt_mem i
    rw [if_pos hmem]
    exact congrArg Except.ok (d.idxOf_nodeAt i).symm

theorem weight_eq (d : Device) (a b : Node) : d.weight a b = d.network.weight a b := by
  unfold weight Network.weight
  rcases d.seats_cases a b with ha | ⟨i, hi, hb⟩ | ⟨i, j, hi, hj⟩
  · rw [seat_eq_error ha, if_pos ha]
    rfl
  · rw [seat_eq_ok hi, seat_eq_error hb, if_neg (not_not.2 (mem_network hi)), if_pos hb]
    rfl
  · rw [if_neg (not_not.2 (mem_network hi)), if_neg (not_not.2 (mem_network hj)), seat_eq_ok hi,
      seat_eq_ok hj, ← linkAt?_weight hi hj]
    simp only [bind, Except.bind]
    cases d.linkAt? i j <;> rfl

/-- The connections of a device are the weights of its network, each listed once. -/
theorem connections_perm (d : Device) : d.connections.Perm d.network.connections := by
  refine (List.perm_ext_iff_of_nodup ?_ d.network.connections_nodup).2 fun c => ?_
  · exact List.Nodup.of_map Connection.ends d.ends_nodup
  · rw [Network.mem_connections, weight?_network]

/-- Questions about a device have the same answers as questions about a network. -/
structure Agrees (d : Device) (N : Network) : Prop where
  nodes : d.nodes = N.nodes
  size : d.size = N.nodes.length
  contains : ∀ n, d.contains n = true ↔ n ∈ N.nodes
  position : ∀ n, (d.position n).map Fin.val = N.position n
  hasConnection : ∀ a b, d.hasConnection a b = (N.weight? a b).isSome
  weight : ∀ a b, d.weight a b = N.weight a b
  connectionCount : d.connectionCount = N.pairs.length
  connections : d.connections.Perm N.connections

theorem agrees_network (d : Device) : d.Agrees d.network where
  nodes := rfl
  size := d.length_nodes.symm
  contains _ := contains_iff
  position := d.map_position
  hasConnection _ _ := Option.isSome_map.symm
  weight := d.weight_eq
  connectionCount := by
    rw [connectionCount_eq, d.connections_perm.length_eq, ← Network.map_connections,
      List.length_map]
  connections := d.connections_perm

/-- Connections join different nodes that are there with finite weights, and none is stored
twice. -/
structure Sound (d : Device) : Prop where
  fits : ∀ c ∈ d.connections, c.Fits d.nodes
  ends_nodup : (d.connections.map Connection.ends).Nodup

theorem sound (d : Device) : d.Sound := ⟨fun _ => fits_of_mem, d.ends_nodup⟩

/-- Edits of a device, wherever it comes from, have the same outcomes on its network, and then the
two still agree. -/
theorem runAll_agrees (d : Device) (es : List Edit) :
    (Edit.runAll edit d es).2 = (Edit.runAll Network.edit d.network es).2 ∧
      (Edit.runAll edit d es).1.Agrees (Edit.runAll Network.edit d.network es).1 := by
  rw [runAll_network]
  exact ⟨rfl, agrees_network _⟩

/-- A constructor fails for devices as it does for networks. Otherwise every edit after it is
refused for the same reason or accepted by both, questions have the same answers in the end, and the
connections of the device are sound. -/
theorem refines_network (s : Start) (es : List Edit) :
    match start s, Network.start s with
    | .ok d, .ok N =>
      (Edit.runAll edit d es).2 = (Edit.runAll Network.edit N es).2 ∧
      (Edit.runAll edit d es).1.Agrees (Edit.runAll Network.edit N es).1 ∧
      (Edit.runAll edit d es).1.Sound
    | .error x, .error y => x = y
    | _, _ => False := by
  rw [← map_start]
  cases start s with
  | error x => rfl
  | ok d =>
    obtain ⟨hout, hagrees⟩ := runAll_agrees d es
    exact ⟨hout, hagrees, sound _⟩

end CouplingMap.Device
