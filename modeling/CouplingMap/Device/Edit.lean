import CouplingMap.Device.Basic

/-!
# Editing devices

* `Device.addNode`, `Device.connect`: nodes go to the end of the node order; a connection between
  nodes that are connected already only replaces the weight.
* `Device.disconnect`, `Device.removeNode`: free the slots of the connections they take away, and
  the seat of the node.
-/

namespace CouplingMap.Device

variable {d : Device} {n : Node} {c : Connection} {l : Link} {i : Nat}

/-! ## Adding nodes -/

/-- The device with one node more, which takes the next seat. -/
def withNode (d : Device) (n : Node) (h : d.contains n = false) : Device :=
  have hn (j : Nat) : d.seats.get? j ≠ some n := fun hj => by
    rw [contains, seat?_eq_some.2 hj] at h
    contradiction
  have hnext : d.seats.get? d.seats.next = none := d.seats.get?_next
  { d with
    seats := d.seats.insert n
    order := d.order ++ [d.seats.next]
    directory := d.directory ++ [(n, d.seats.next)]
    order_nodup := by
      refine List.nodup_append.2 ⟨d.order_nodup, by simp, ?_⟩
      rintro i hi j hj rfl
      obtain ⟨m, hm⟩ := d.mem_order.1 hi
      rw [List.mem_singleton.1 hj, hnext] at hm
      contradiction
    mem_order := by
      intro i
      rw [List.mem_append, List.mem_singleton, d.mem_order]
      simp only [Slots.get?_insert]
      by_cases hi : i = d.seats.next
      · simp [hi]
      · simp [hi]
    mem_directory := by
      intro m i
      rw [List.mem_append, List.mem_singleton, d.mem_directory, Slots.get?_insert]
      by_cases hi : i = d.seats.next
      · simp [hi, hnext, eq_comm]
      · simp [hi]
    seat_unique := by
      intro m i j hi hj
      rw [Slots.get?_insert] at hi hj
      split at hi <;> split at hj
      · exact ‹i = _›.trans ‹j = _›.symm
      · exact absurd (Option.some.inj hi ▸ hj) (hn j)
      · exact absurd (Option.some.inj hj ▸ hi) (hn i)
      · exact d.seat_unique hi hj
    link_fits := fun hl =>
      { d.link_fits hl with
        source_mem := List.mem_append_left _ (d.link_fits hl).source_mem
        target_mem := List.mem_append_left _ (d.link_fits hl).target_mem } }

/-- Seats that are taken are not changed by a new node. -/
theorem get?_seats_withNode {h : d.contains n = false} {m : Node} (hi : d.seats.get? i = some m) :
    (d.withNode n h).seats.get? i = some m := by
  have hne : i ≠ d.seats.next := fun e => by
    rw [e, d.seats.get?_next] at hi
    contradiction
  exact (d.seats.get?_insert n i).trans ((if_neg hne).trans hi)

@[simp] theorem nodes_withNode (d : Device) (n : Node) (h : d.contains n = false) :
    (d.withNode n h).nodes = d.nodes ++ [n] := by
  have hold : d.order.filterMap (d.withNode n h).seats.get? = d.order.filterMap d.seats.get? := by
    refine filterMap_congr fun i hi => ?_
    obtain ⟨m, hm⟩ := d.mem_order.1 hi
    rw [hm, get?_seats_withNode hm]
  have hnew : (d.withNode n h).seats.get? d.seats.next = some n :=
    (d.seats.get?_insert n _).trans (if_pos rfl)
  rw [nodes_eq, nodes_eq, ← hold]
  show (d.order ++ [d.seats.next]).filterMap _ = _
  rw [List.filterMap_append, List.filterMap_cons_some hnew, List.filterMap_nil]

/-- A connection stands for the same nodes as long as these keep their seats. -/
theorem connection?_congr {seats : Nat → Option Node}
    (hs : seats l.source = d.seats.get? l.source) (ht : seats l.target = d.seats.get? l.target) :
    l.connection? seats = l.connection? d.seats.get? := by
  rw [Link.connection?, hs, ht, Link.connection?]

@[simp] theorem connections_withNode (d : Device) (n : Node) (h : d.contains n = false) :
    (d.withNode n h).connections = d.connections := by
  rw [connections_eq, connections_eq]
  refine filterMap_congr fun l hl => ?_
  obtain ⟨k, hk⟩ := Slots.mem_toList.1 hl
  obtain ⟨a, ha⟩ := d.mem_order.1 (d.link_fits hk).source_mem
  obtain ⟨b, hb⟩ := d.mem_order.1 (d.link_fits hk).target_mem
  exact connection?_congr ((get?_seats_withNode ha).trans ha.symm)
    ((get?_seats_withNode hb).trans hb.symm)

/-- Adds a node at the end of the node order. -/
def addNode (d : Device) (n : Node) : Except DeviceError Device :=
  if h : d.contains n = false then .ok (d.withNode n h) else .error (.duplicateNode n)

/-! ## Adding connections -/

/-- A connection with the weight of `l`, if it runs between the same seats. -/
def reweighed (l m : Link) : Link :=
  if m.runs l.source l.target then { m with weight := l.weight } else m

@[simp] theorem reweighed_source (l m : Link) : (reweighed l m).source = m.source := by
  unfold reweighed; split <;> rfl

@[simp] theorem reweighed_target (l m : Link) : (reweighed l m).target = m.target := by
  unfold reweighed; split <;> rfl

theorem connection?_reweighed (seats : Nat → Option Node) (l m : Link) :
    (reweighed l m).connection? seats = (m.connection? seats).map fun x =>
      if m.runs l.source l.target then { x with weight := l.weight } else x := by
  unfold reweighed
  split
  · cases hs : seats m.source with
    | none => simp [Link.connection?, hs]
    | some a => cases ht : seats m.target <;> simp [Link.connection?, hs, ht]
  · exact Option.map_id'.symm

/-- The device in which the connection between the seats of `l` has the weight of `l`. -/
def reweigh (d : Device) (l : Link) (hl : l.Fits d.order) : Device :=
  { d with
    links := d.links.map (reweighed l)
    link_fits := by
      intro k m hm
      rw [Slots.get?_map, Option.map_eq_some_iff] at hm
      obtain ⟨m, hm, rfl⟩ := hm
      have hf := d.link_fits hm
      refine ⟨by simpa using hf.source_mem, by simpa using hf.target_mem, by simpa using hf.ne, ?_⟩
      unfold reweighed
      split
      · exact hl.finite
      · exact hf.finite
    link_unique := by
      intro k k' m m' hm hm' hruns
      rw [Slots.get?_map, Option.map_eq_some_iff] at hm hm'
      obtain ⟨m, hm, rfl⟩ := hm
      obtain ⟨m', hm', rfl⟩ := hm'
      refine d.link_unique hm hm' ?_
      simpa [Link.runs] using hruns }

@[simp] theorem nodes_reweigh (d : Device) (l : Link) (hl : l.Fits d.order) :
    (d.reweigh l hl).nodes = d.nodes := rfl

/-- Only the weight of the connection with the ends of `l` changes. -/
theorem connections_reweigh (hl : l.Fits d.order) (hc : l.connection? d.seats.get? = some c) :
    (d.reweigh l hl).connections = d.connections.map fun x =>
      if x.joins c.source c.target then { x with weight := c.weight } else x := by
  obtain ⟨hs, ht, hw⟩ := Link.connection?_eq_some.1 hc
  rw [connections_eq, connections_eq]
  show ((d.links.map (reweighed l)).toList).filterMap (Link.connection? d.seats.get?) = _
  rw [Slots.toList_map, List.filterMap_map, List.map_filterMap]
  refine filterMap_congr fun m _ => ?_
  rw [Function.comp_apply, connection?_reweighed]
  cases hm : m.connection? d.seats.get? with
  | none => rfl
  | some x => rw [Option.map_some, Option.map_some, Bool.eq_iff_iff.2 (joins_iff hm hs ht), hw]

/-- The device with one connection more, which takes the next slot. -/
def enter (d : Device) (l : Link) (hl : l.Fits d.order)
    (hn : d.linkAt? l.source l.target = none) : Device :=
  have hold {k : Nat} {m : Link} (hm : d.links.get? k = some m) :
      m.runs l.source l.target = false := by
    have h := List.find?_eq_none.1 hn m (Slots.mem_toList.2 ⟨k, hm⟩)
    exact Bool.eq_false_iff.2 h
  { d with
    links := d.links.insert l
    nextSerial := d.nextSerial + 1
    link_fits := by
      intro k m hm
      rw [Slots.get?_insert] at hm
      split at hm
      · exact Option.some.inj hm ▸ hl
      · exact d.link_fits hm
    link_unique := by
      intro k k' m m' hm hm' hruns
      rw [Slots.get?_insert] at hm hm'
      split at hm <;> split at hm'
      · exact ‹k = _›.trans ‹k' = _›.symm
      · obtain rfl := Option.some.inj hm
        have h := hold hm'
        rw [Link.runs_iff] at hruns
        rw [Link.runs_iff.2 ⟨hruns.1.symm, hruns.2.symm⟩] at h
        contradiction
      · obtain rfl := Option.some.inj hm'
        rw [hold hm] at hruns
        contradiction
      · exact d.link_unique hm hm' hruns }

@[simp] theorem nodes_enter (d : Device) (l : Link) (hl : l.Fits d.order)
    (hn : d.linkAt? l.source l.target = none) : (d.enter l hl hn).nodes = d.nodes := rfl

/-- A new connection is listed between those of the slots before and after it. -/
theorem connections_enter (hl : l.Fits d.order) (hn : d.linkAt? l.source l.target = none)
    (hc : l.connection? d.seats.get? = some c) : ∃ before after : List Connection,
      d.connections = before ++ after ∧ (d.enter l hl hn).connections = before ++ c :: after := by
  obtain ⟨before, after, hold, hnew⟩ := d.links.toList_insert l
  refine ⟨before.filterMap (Link.connection? d.seats.get?),
    after.filterMap (Link.connection? d.seats.get?), ?_, ?_⟩
  · rw [connections_eq, hold, List.filterMap_append]
  · rw [connections_eq]
    show ((d.links.insert l).toList).filterMap (Link.connection? d.seats.get?) = _
    rw [hnew, List.filterMap_append, List.filterMap_cons_some hc]

/-- Enters a connection. If its seats are connected already, only the weight changes. -/
def put (d : Device) (l : Link) (hl : l.Fits d.order) : Device :=
  match hn : d.linkAt? l.source l.target with
  | some _ => d.reweigh l hl
  | none => d.enter l hl hn

theorem put_of_none (hl : l.Fits d.order) (hn : d.linkAt? l.source l.target = none) :
    d.put l hl = d.enter l hl hn := by
  unfold put
  split
  · rename_i hsome
    rw [hn] at hsome
    contradiction
  · rfl

@[simp] theorem nodes_put (d : Device) (l : Link) (hl : l.Fits d.order) :
    (d.put l hl).nodes = d.nodes := by
  unfold put
  split <;> rfl

/-- Connects `a` to `b` with a weight. -/
def connect (d : Device) (a b : Node) (w : Binary64) : Except DeviceError Device := do
  let i ← d.seat a
  let j ← d.seat b
  if hij : i.val = j.val then .error (.selfConnection a)
  else if hw : w.isFinite = true then
    .ok (d.put ⟨i, j, w, d.nextSerial⟩
      ⟨d.mem_order.2 ⟨a, i.2⟩, d.mem_order.2 ⟨b, j.2⟩, hij, hw⟩)
  else .error (.invalidWeight a b w)

/-- A connection that fits is entered between the seats of its ends. -/
theorem connect_eq_ok {a b : Node} {w : Binary64} {j : Nat} (ha : d.seats.get? i = some a)
    (hb : d.seats.get? j = some b) (hl : Link.Fits ⟨i, j, w, d.nextSerial⟩ d.order) :
    d.connect a b w = .ok (d.put ⟨i, j, w, d.nextSerial⟩ hl) := by
  rw [connect, seat_eq_ok ha, seat_eq_ok hb]
  show (if hij : i = j then _ else _) = _
  rw [dif_neg hl.ne, dif_pos hl.finite]

/-- The weight of connections that are given without one. -/
def defaultWeight : Binary64 := .one

/-! ## Removing -/

/-- The device without the connections that satisfy `p`; their slots are freed in the given
order. -/
def discard (d : Device) (p : Link → Bool) (order : List Nat)
    (ho : ∀ k, k ∈ order ↔ ∃ l, d.links.get? k = some l ∧ p l = true) (hn : order.Nodup) :
    Device :=
  { d with
    links := d.links.clear p order ho hn
    link_fits := by
      intro k l hl
      rw [Slots.get?_clear, Option.filter_eq_some_iff] at hl
      exact d.link_fits hl.1
    link_unique := by
      intro k k' l l' hl hl' hruns
      rw [Slots.get?_clear, Option.filter_eq_some_iff] at hl hl'
      exact d.link_unique hl.1 hl'.1 hruns }

@[simp] theorem nodes_discard (d : Device) (p : Link → Bool) (order : List Nat)
    (ho : ∀ k, k ∈ order ↔ ∃ l, d.links.get? k = some l ∧ p l = true) (hn : order.Nodup) :
    (d.discard p order ho hn).nodes = d.nodes := rfl

theorem get?_links_discard {p : Link → Bool} {order : List Nat}
    {ho : ∀ k, k ∈ order ↔ ∃ l, d.links.get? k = some l ∧ p l = true} {hn : order.Nodup} (k : Nat) :
    (d.discard p order ho hn).links.get? k = (d.links.get? k).filter fun l => !p l :=
  Slots.get?_clear ho hn k

/-- The connections that are left stay in their order. -/
theorem connections_discard {p : Link → Bool} {order : List Nat}
    {ho : ∀ k, k ∈ order ↔ ∃ l, d.links.get? k = some l ∧ p l = true} {hn : order.Nodup}
    (q : Connection → Bool) (hq : ∀ l c, l.connection? d.seats.get? = some c → p l = q c) :
    (d.discard p order ho hn).connections = d.connections.filter fun c => !q c := by
  rw [connections_eq, connections_eq]
  show ((d.links.clear p order ho hn).toList).filterMap (Link.connection? d.seats.get?) = _
  rw [Slots.toList_clear, List.filter_filterMap, List.filterMap_filter]
  refine filterMap_congr fun l _ => ?_
  cases hc : l.connection? d.seats.get? with
  | none => simp
  | some c =>
    rw [hq l c hc]
    cases h : q c <;> simp [Option.filter, h]

/-- The device without the connection from seat `i` to seat `j`. -/
def cutLink (d : Device) (i j : Nat) : Device :=
  d.discard (fun l => l.runs i j) (d.links.having (fun l => l.runs i j) Link.serial)
    (fun _ => Slots.mem_having) (d.links.having_nodup _ _)

theorem connections_cutLink {j : Nat} {a b : Node} (ha : d.seats.get? i = some a)
    (hb : d.seats.get? j = some b) :
    (d.cutLink i j).connections = d.connections.filter fun c => !c.joins a b :=
  connections_discard (fun c => c.joins a b) fun _ _ hc =>
    Bool.eq_iff_iff.2 (joins_iff hc ha hb).symm

/-- Removes the connection from `a` to `b`. -/
def disconnect (d : Device) (a b : Node) : Except DeviceError Device := do
  let i ← d.seat a
  let j ← d.seat b
  if (d.linkAt? i j).isSome then .ok (d.cutLink i j) else .error (.connectionNotFound a b)

/-- The device without the connections of seat `i`. Slots of connections from the seat are freed
before those of connections to it, the latest connection first in both groups. -/
def isolate (d : Device) (i : Nat) : Device :=
  d.discard (fun l => l.touches i)
    (d.links.having (fun l => l.source = i) Link.serial ++
      d.links.having (fun l => l.target = i) Link.serial)
    (by
      intro k
      simp only [List.mem_append, Slots.mem_having, Link.touches, decide_eq_true_eq]
      constructor
      · rintro (⟨l, hl, h⟩ | ⟨l, hl, h⟩)
        · exact ⟨l, hl, Or.inl h⟩
        · exact ⟨l, hl, Or.inr h⟩
      · rintro ⟨l, hl, h | h⟩
        · exact Or.inl ⟨l, hl, h⟩
        · exact Or.inr ⟨l, hl, h⟩)
    (by
      refine List.nodup_append.2 ⟨d.links.having_nodup _ _, d.links.having_nodup _ _, ?_⟩
      rintro k hk k' hk' rfl
      obtain ⟨l, hl, hs⟩ := Slots.mem_having.1 hk
      obtain ⟨m, hm, ht⟩ := Slots.mem_having.1 hk'
      obtain rfl := Option.some.inj (hl.symm.trans hm)
      rw [decide_eq_true_iff] at hs ht
      exact (d.link_fits hl).ne (hs.trans ht.symm))

/-- A node that is isolated keeps its seat. -/
theorem get?_seats_isolate (hi : d.seats.get? i = some n) :
    (d.isolate i).seats.get? i = some n := hi

/-- A node is isolated by leaving out the connections that touch it. -/
theorem connections_isolate (hi : d.seats.get? i = some n) :
    (d.isolate i).connections = d.connections.filter fun c => !c.touches n := by
  refine connections_discard (fun c => c.touches n) fun l c hc => ?_
  obtain ⟨hs, ht, -⟩ := Link.connection?_eq_some.1 hc
  rw [Link.touches, Connection.touches, decide_eq_decide, seat_eq_iff hs hi, seat_eq_iff ht hi]

/-- A seat that is isolated has no connections. -/
theorem touches_isolate {k : Nat} (h : (d.isolate i).links.get? k = some l) :
    l.touches i = false := by
  rw [isolate, get?_links_discard, Option.filter_eq_some_iff] at h
  simpa using h.2

/-- The seats without that of a node, which is freed. -/
def vacate (d : Device) (hi : d.seats.get? i = some n) : Slots Node :=
  d.seats.clear (fun m => m = n) [i] (by
    intro j
    rw [List.mem_singleton]
    constructor
    · rintro rfl
      exact ⟨n, hi, decide_eq_true rfl⟩
    · rintro ⟨m, hj, hm⟩
      exact d.seat_unique hj (of_decide_eq_true hm ▸ hi)) (by simp)

theorem get?_vacate {hi : d.seats.get? i = some n} {j : Nat} {m : Node} :
    (d.vacate hi).get? j = some m ↔ d.seats.get? j = some m ∧ j ≠ i := by
  rw [vacate, Slots.get?_clear, Option.filter_eq_some_iff]
  refine and_congr_right fun hj => ?_
  rw [Bool.not_eq_true', decide_eq_false_iff_not, seat_eq_iff hj hi]

/-- The device without a node, whose seat has no connections. -/
def forget (d : Device) (hi : d.seats.get? i = some n)
    (h : ∀ {k : Nat} {l : Link}, d.links.get? k = some l → l.touches i = false) : Device :=
  { d with
    seats := d.vacate hi
    order := d.order.filter fun j => j ≠ i
    directory := d.directory.filter fun p => p.1 ≠ n
    order_nodup := List.Pairwise.filter _ d.order_nodup
    mem_order := by
      intro j
      simp only [List.mem_filter, decide_eq_true_eq, d.mem_order, get?_vacate, exists_and_right]
    mem_directory := by
      intro m j
      rw [List.mem_filter, decide_eq_true_iff, d.mem_directory, get?_vacate]
      exact and_congr_right fun hj => not_congr (seat_eq_iff hj hi)
    seat_unique := fun hj hk => d.seat_unique (get?_vacate.1 hj).1 (get?_vacate.1 hk).1
    link_fits := by
      intro k l hl
      have hf := d.link_fits hl
      have ht := Link.touches_eq_false.1 (h hl)
      exact ⟨by simpa using ⟨hf.source_mem, ht.1⟩, by simpa using ⟨hf.target_mem, ht.2⟩, hf.ne,
        hf.finite⟩ }

@[simp] theorem nodes_forget (hi : d.seats.get? i = some n)
    (h : ∀ {k : Nat} {l : Link}, d.links.get? k = some l → l.touches i = false) :
    (d.forget hi h).nodes = d.nodes.filter fun m => m ≠ n := by
  rw [nodes_eq, nodes_eq, List.filter_filterMap]
  show (d.order.filter fun j => j ≠ i).filterMap (d.vacate hi).get? = _
  rw [List.filterMap_filter]
  refine filterMap_congr fun j hj => ?_
  obtain ⟨m, hm⟩ := d.mem_order.1 hj
  rw [hm]
  by_cases hji : j = i
  · simp [hji, (seat_eq_iff hm hi).2 hji, Option.filter]
  · have hmn : m ≠ n := fun e => hji ((seat_eq_iff hm hi).1 e)
    simp [hji, hmn, get?_vacate.2 ⟨hm, hji⟩, Option.filter]

@[simp] theorem connections_forget (hi : d.seats.get? i = some n)
    (h : ∀ {k : Nat} {l : Link}, d.links.get? k = some l → l.touches i = false) :
    (d.forget hi h).connections = d.connections := by
  rw [connections_eq, connections_eq]
  refine filterMap_congr fun l hl => ?_
  obtain ⟨k, hk⟩ := Slots.mem_toList.1 hl
  obtain ⟨a, ha⟩ := d.mem_order.1 (d.link_fits hk).source_mem
  obtain ⟨b, hb⟩ := d.mem_order.1 (d.link_fits hk).target_mem
  have ht := Link.touches_eq_false.1 (h hk)
  have hs : (d.vacate hi).get? l.source = some a := get?_vacate.2 ⟨ha, ht.1⟩
  have ht : (d.vacate hi).get? l.target = some b := get?_vacate.2 ⟨hb, ht.2⟩
  exact connection?_congr (hs.trans ha.symm) (ht.trans hb.symm)

/-- Removes a node with all of its connections. -/
def removeNode (d : Device) (n : Node) : Except DeviceError Device := do
  let i ← d.seat n
  .ok ((d.isolate i).forget (get?_seats_isolate i.2) touches_isolate)

/-- A node of the device can be removed: it goes with the connections that touch it. -/
theorem removeNode_eq_ok (h : n ∈ d.nodes) : ∃ e, d.removeNode n = .ok e ∧
    e.nodes = d.nodes.filter (fun m => m ≠ n) ∧
    e.connections = d.connections.filter fun c => !c.touches n := by
  obtain ⟨i, hi⟩ := mem_nodes.1 h
  refine ⟨(d.isolate i).forget (get?_seats_isolate hi) touches_isolate, ?_, nodes_forget .., ?_⟩
  · rw [removeNode, seat_eq_ok hi]
    rfl
  · rw [connections_forget, connections_isolate hi]

end CouplingMap.Device
