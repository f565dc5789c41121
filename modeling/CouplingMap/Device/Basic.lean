import CouplingMap.Device.Error
import CouplingMap.Slots

/-!
# Devices

A device is an ordered list of nodes and a set of directed, weighted connections between them.
Nodes sit in numbered seats, which do not change while they are there; the node order lists seats,
and a directory tells the seat of a node. Connections run between seats, are kept in slots of their
own and are listed in slot order. Each connection has a serial number, so that the latest ones can
be told.

* `Device`: the rules that all edits keep are part of the type. The node order lists the seats that
  are taken, no node has two seats, the directory agrees with the seats, a connection runs between
  two different seats that are taken and has a finite weight, and no two connections run between
  the same seats.
* `Device.nodes`, `Device.connections`: what the order and the slots stand for.
* `Device.seat?`, `Device.find?`: the seat of a node, the connection between two nodes.
-/

namespace CouplingMap

/-- A directed connection with its weight. -/
structure Connection where
  source : Node
  target : Node
  weight : Binary64
deriving DecidableEq

namespace Connection

/-- The nodes that a connection joins. -/
def ends (c : Connection) : Node × Node := (c.source, c.target)

/-- Whether a connection goes from `a` to `b`. -/
def joins (c : Connection) (a b : Node) : Bool := c.source = a ∧ c.target = b

/-- Whether a connection starts or ends at `n`. -/
def touches (c : Connection) (n : Node) : Bool := c.source = n ∨ c.target = n

/-- A connection that a device with these nodes may hold. -/
structure Fits (c : Connection) (nodes : List Node) : Prop where
  source_mem : c.source ∈ nodes
  target_mem : c.target ∈ nodes
  ne : c.source ≠ c.target
  finite : c.weight.isFinite = true

theorem joins_iff {c : Connection} {a b : Node} :
    c.joins a b = true ↔ c.source = a ∧ c.target = b := decide_eq_true_iff

theorem touches_eq_false {c : Connection} {n : Node} :
    c.touches n = false ↔ c.source ≠ n ∧ c.target ≠ n := by
  rw [touches, decide_eq_false_iff_not, not_or]

end Connection

/-- A connection between two seats. -/
structure Link where
  source : Nat
  target : Nat
  weight : Binary64
  /-- The number of connections that were entered before this one. -/
  serial : Nat
deriving DecidableEq

namespace Link

/-- Whether a connection runs from one seat to another. -/
def runs (l : Link) (i j : Nat) : Bool := l.source = i ∧ l.target = j

/-- Whether a connection starts or ends at a seat. -/
def touches (l : Link) (i : Nat) : Bool := l.source = i ∨ l.target = i

/-- A connection that a device with these seats taken may hold. -/
structure Fits (l : Link) (order : List Nat) : Prop where
  source_mem : l.source ∈ order
  target_mem : l.target ∈ order
  ne : l.source ≠ l.target
  finite : l.weight.isFinite = true

/-- The connection between the nodes in the seats. -/
def connection? (seats : Nat → Option Node) (l : Link) : Option Connection :=
  (seats l.source).bind fun a => (seats l.target).map fun b => ⟨a, b, l.weight⟩

theorem runs_iff {l : Link} {i j : Nat} : l.runs i j = true ↔ l.source = i ∧ l.target = j :=
  decide_eq_true_iff

theorem touches_eq_false {l : Link} {i : Nat} :
    l.touches i = false ↔ l.source ≠ i ∧ l.target ≠ i := by
  rw [touches, decide_eq_false_iff_not, not_or]

theorem connection?_eq_some {seats : Nat → Option Node} {l : Link} {c : Connection} :
    l.connection? seats = some c ↔
      seats l.source = some c.source ∧ seats l.target = some c.target ∧ l.weight = c.weight := by
  simp only [connection?, Option.bind_eq_some_iff, Option.map_eq_some_iff]
  constructor
  · rintro ⟨a, ha, b, hb, rfl⟩
    exact ⟨ha, hb, rfl⟩
  · rintro ⟨ha, hb, hw⟩
    exact ⟨_, ha, _, hb, by rw [hw]⟩

end Link

/-- A device. -/
@[ext]
structure Device where
  /-- The seats of the nodes. -/
  seats : Slots Node
  /-- The seats that are taken, in node order. -/
  order : List Nat
  /-- The seat of every node. -/
  directory : List (Node × Nat)
  links : Slots Link
  nextSerial : Nat
  order_nodup : order.Nodup
  mem_order : ∀ {i : Nat}, i ∈ order ↔ ∃ n, seats.get? i = some n
  mem_directory : ∀ {n : Node} {i : Nat}, (n, i) ∈ directory ↔ seats.get? i = some n
  seat_unique : ∀ {n : Node} {i j : Nat}, seats.get? i = some n → seats.get? j = some n → i = j
  link_fits : ∀ {k : Nat} {l : Link}, links.get? k = some l → l.Fits order
  link_unique : ∀ {k m : Nat} {l l' : Link}, links.get? k = some l → links.get? m = some l' →
    l.runs l'.source l'.target = true → k = m

namespace Device

/-- The device without nodes. -/
def empty : Device where
  seats := .empty
  order := []
  directory := []
  links := .empty
  nextSerial := 0
  order_nodup := List.nodup_nil
  mem_order := by simp
  mem_directory := by simp
  seat_unique := by simp
  link_fits := by simp
  link_unique := by simp

instance : Inhabited Device := ⟨empty⟩

variable {d : Device} {a b n : Node} {c : Connection} {i j : Nat}

/-- Nodes are the same just if their seats are. -/
theorem seat_eq_iff {a b : Node} {i j : Nat} (ha : d.seats.get? i = some a)
    (hb : d.seats.get? j = some b) : a = b ↔ i = j := by
  constructor
  · rintro rfl
    exact d.seat_unique ha hb
  · rintro rfl
    exact Option.some.inj (ha.symm.trans hb)

/-! ## Nodes -/

/-- The number of nodes. -/
abbrev size (d : Device) : Nat := d.order.length

/-- The nodes in order. -/
def nodes (d : Device) : List Node :=
  let seats := d.seats.cells.toArray
  d.order.filterMap fun i => seats[i]?.join

/-- The seat of a node. -/
def seat? (d : Device) (n : Node) : Option Nat := d.directory.lookup n

/-- Whether the device has a node. -/
def contains (d : Device) (n : Node) : Bool := (d.seat? n).isSome

theorem nodes_eq (d : Device) : d.nodes = d.order.filterMap d.seats.get? := by
  simp only [nodes, List.getElem?_toArray]
  rfl

/-- The nodes listed are those that have a seat. -/
theorem mem_nodes : n ∈ d.nodes ↔ ∃ i, d.seats.get? i = some n := by
  rw [nodes_eq, List.mem_filterMap]
  exact exists_congr fun i => and_iff_right_of_imp fun h => d.mem_order.2 ⟨n, h⟩

theorem nodes_nodup (d : Device) : d.nodes.Nodup := by
  rw [nodes_eq]
  refine List.pairwise_filterMap.2 (d.order_nodup.imp ?_)
  rintro i j hne n hi m hj rfl
  exact hne (d.seat_unique hi hj)

/-- Every place in the node order has a node. -/
theorem map_nodes (d : Device) : d.nodes.map some = d.order.map d.seats.get? := by
  have h (i : Nat) (hi : i ∈ d.order) : ∃ n, d.seats.get? i = some n := d.mem_order.1 hi
  rw [nodes_eq]
  generalize d.order = order at h
  induction order with
  | nil => rfl
  | cons i order ih =>
    obtain ⟨n, hn⟩ := h i List.mem_cons_self
    rw [List.filterMap_cons_some hn, List.map_cons, List.map_cons, hn,
      ih fun j hj => h j (List.mem_cons_of_mem _ hj)]

theorem length_nodes (d : Device) : d.nodes.length = d.size := by
  rw [← List.length_map (f := some), map_nodes, List.length_map]

/-- The directory tells the seat of a node. -/
theorem seat?_eq_some : d.seat? n = some i ↔ d.seats.get? i = some n := by
  rw [seat?, List.lookup_eq_some_iff]
  constructor
  · rintro ⟨before, after, h, -⟩
    exact d.mem_directory.1 (h ▸ List.mem_append_right _ List.mem_cons_self)
  · intro h
    obtain ⟨j, hj⟩ : ∃ j, d.directory.lookup n = some j := by
      rw [← Option.isSome_iff_exists, List.lookup_isSome_iff]
      exact ⟨_, d.mem_directory.2 h, BEq.rfl⟩
    obtain ⟨before, after, hmem, hbefore⟩ := List.lookup_eq_some_iff.1 hj
    have hseat := d.mem_directory.1 (hmem ▸ List.mem_append_right _ List.mem_cons_self)
    exact ⟨before, after, d.seat_unique hseat h ▸ hmem, hbefore⟩

/-- The seat of a node of the device. -/
def seat (d : Device) (n : Node) : Except DeviceError { i // d.seats.get? i = some n } :=
  match h : d.seat? n with
  | some i => .ok ⟨i, seat?_eq_some.1 h⟩
  | none => .error (.nodeNotFound n)

theorem contains_iff : d.contains n = true ↔ n ∈ d.nodes := by
  rw [contains, Option.isSome_iff_exists, mem_nodes]
  exact exists_congr fun i => seat?_eq_some

theorem contains_eq_false : d.contains n = false ↔ n ∉ d.nodes := by
  rw [Bool.eq_false_iff, Ne, contains_iff]

theorem seat_eq_ok (h : d.seats.get? i = some n) : d.seat n = .ok ⟨i, h⟩ := by
  unfold seat
  split
  · rename_i j hj
    exact congrArg Except.ok (Subtype.ext (d.seat_unique (seat?_eq_some.1 hj) h))
  · rename_i hnone
    rw [seat?_eq_some.2 h] at hnone
    contradiction

theorem seat_eq_error (h : n ∉ d.nodes) : d.seat n = .error (.nodeNotFound n) := by
  unfold seat
  split
  · rename_i j hj
    exact absurd (mem_nodes.2 ⟨j, seat?_eq_some.1 hj⟩) h
  · rfl

/-! ## Connections -/

/-- The connections in slot order. -/
def connections (d : Device) : List Connection :=
  let seats := d.seats.cells.toArray
  d.links.toList.filterMap (Link.connection? fun i => seats[i]?.join)

/-- The number of connections. -/
def connectionCount (d : Device) : Nat := d.links.toList.length

/-- The connection from one seat to another. -/
def linkAt? (d : Device) (i j : Nat) : Option Link := d.links.toList.find? fun l => l.runs i j

/-- The connection from `a` to `b`. -/
def find? (d : Device) (a b : Node) : Option Connection :=
  (d.seat? a).bind fun i => (d.seat? b).bind fun j =>
    (d.linkAt? i j).map fun l => ⟨a, b, l.weight⟩

theorem connections_eq (d : Device) :
    d.connections = d.links.toList.filterMap (Link.connection? d.seats.get?) := by
  simp only [connections, List.getElem?_toArray]
  rfl

/-- The connections listed are those in the slots. -/
theorem mem_connections : c ∈ d.connections ↔ ∃ k l, d.links.get? k = some l ∧
    l.connection? d.seats.get? = some c := by
  simp only [connections_eq, List.mem_filterMap, Slots.mem_toList]
  grind

/-- Every connection of a device joins two of its nodes with a finite weight. -/
theorem fits_of_mem (h : c ∈ d.connections) : c.Fits d.nodes := by
  obtain ⟨k, l, hl, hc⟩ := mem_connections.1 h
  obtain ⟨ha, hb, hw⟩ := Link.connection?_eq_some.1 hc
  have hf := d.link_fits hl
  refine ⟨mem_nodes.2 ⟨_, ha⟩, mem_nodes.2 ⟨_, hb⟩, fun e => hf.ne ?_, hw ▸ hf.finite⟩
  exact d.seat_unique (e ▸ ha) hb

theorem mem_of_linkAt? {l : Link} (h : d.linkAt? i j = some l) :
    l ∈ d.links.toList ∧ l.runs i j = true := by
  rw [linkAt?] at h
  have hruns := List.find?_some h
  exact ⟨List.mem_of_find?_eq_some h, hruns⟩

/-- Every slot that is taken has a connection. -/
theorem connectionCount_eq (d : Device) : d.connectionCount = d.connections.length := by
  rw [connectionCount, connections_eq]
  refine (List.filterMap_length_eq_length.2 fun l hl => ?_).symm
  obtain ⟨k, hk⟩ := Slots.mem_toList.1 hl
  obtain ⟨a, ha⟩ := d.mem_order.1 (d.link_fits hk).source_mem
  obtain ⟨b, hb⟩ := d.mem_order.1 (d.link_fits hk).target_mem
  rw [Option.isSome_iff_exists]
  exact ⟨⟨a, b, l.weight⟩, Link.connection?_eq_some.2 ⟨ha, hb, rfl⟩⟩

/-- No two connections have the same ends. -/
theorem ends_nodup (d : Device) : (d.connections.map Connection.ends).Nodup := by
  rw [connections_eq, List.Nodup, List.pairwise_map, List.pairwise_filterMap]
  refine Slots.pairwise_toList fun hkm hl hm c hc e he heq => ?_
  obtain ⟨hs, ht, -⟩ := Link.connection?_eq_some.1 hc
  obtain ⟨hs', ht', -⟩ := Link.connection?_eq_some.1 he
  have hruns := Link.runs_iff.2 ⟨(seat_eq_iff hs hs').1 (congrArg Prod.fst heq),
    (seat_eq_iff ht ht').1 (congrArg Prod.snd heq)⟩
  exact Nat.ne_of_lt hkm (d.link_unique hl hm hruns)

/-- At most one connection runs from one seat to another. -/
theorem linkAt?_eq_some {l : Link} : d.linkAt? i j = some l ↔
    (∃ k, d.links.get? k = some l) ∧ l.runs i j = true := by
  rw [← Slots.mem_toList]
  refine ⟨mem_of_linkAt?, ?_⟩
  rintro ⟨hmem, hruns⟩
  obtain ⟨l', hl'⟩ : ∃ l', d.linkAt? i j = some l' := by
    rw [← Option.isSome_iff_exists, linkAt?, List.find?_isSome]
    exact ⟨l, hmem, hruns⟩
  obtain ⟨hmem', hruns'⟩ := mem_of_linkAt? hl'
  obtain ⟨m, hm⟩ := Slots.mem_toList.1 hmem'
  obtain ⟨k, hk⟩ := Slots.mem_toList.1 hmem
  obtain ⟨rfl, rfl⟩ := Link.runs_iff.1 hruns'
  obtain rfl := d.link_unique hk hm hruns
  rw [hl', ← hm, hk]

/-- A connection joins two nodes just if it runs between their seats. -/
theorem joins_iff {l : Link} (hc : l.connection? d.seats.get? = some c)
    (ha : d.seats.get? i = some a) (hb : d.seats.get? j = some b) :
    c.joins a b = true ↔ l.runs i j = true := by
  obtain ⟨hs, ht, -⟩ := Link.connection?_eq_some.1 hc
  rw [Link.runs_iff, Connection.joins_iff, seat_eq_iff hs ha, seat_eq_iff ht hb]

/-- The connection that is found is the one of the device that has the ends asked for. -/
theorem find?_eq_some_iff : d.find? a b = some c ↔ c ∈ d.connections ∧ c.joins a b = true := by
  simp only [find?, Option.bind_eq_some_iff, Option.map_eq_some_iff, seat?_eq_some,
    linkAt?_eq_some, mem_connections]
  constructor
  · rintro ⟨i, hi, j, hj, l, ⟨⟨k, hk⟩, hruns⟩, rfl⟩
    obtain ⟨rfl, rfl⟩ := Link.runs_iff.1 hruns
    exact ⟨⟨k, l, hk, Link.connection?_eq_some.2 ⟨hi, hj, rfl⟩⟩, by simp [Connection.joins]⟩
  · rintro ⟨⟨k, l, hk, hc⟩, hjoins⟩
    obtain ⟨hs, ht, hw⟩ := Link.connection?_eq_some.1 hc
    obtain ⟨rfl, rfl⟩ := Connection.joins_iff.1 hjoins
    exact ⟨_, hs, _, ht, l, ⟨⟨k, hk⟩, Link.runs_iff.2 ⟨rfl, rfl⟩⟩, by rw [hw]⟩

/-- No connection is found just when the device has none with these ends. -/
theorem find?_eq_none_iff : d.find? a b = none ↔ ∀ c ∈ d.connections, c.joins a b = false := by
  rw [Option.eq_none_iff_forall_ne_some]
  refine forall_congr' fun c => ?_
  rw [Ne, find?_eq_some_iff, not_and, Bool.not_eq_true]

/-- Between the seats of two nodes runs the connection that is found between them. -/
theorem find?_eq_linkAt? (ha : d.seats.get? i = some a) (hb : d.seats.get? j = some b) :
    d.find? a b = (d.linkAt? i j).map fun l => ⟨a, b, l.weight⟩ := by
  rw [find?, seat?_eq_some.2 ha, seat?_eq_some.2 hb]
  rfl

theorem linkAt?_eq_none_iff (ha : d.seats.get? i = some a) (hb : d.seats.get? j = some b) :
    d.linkAt? i j = none ↔ ∀ c ∈ d.connections, c.joins a b = false := by
  rw [← find?_eq_none_iff, find?_eq_linkAt? ha hb, Option.map_eq_none_iff]

end Device

end CouplingMap
