import CouplingMap.Proofs.Device.Merge
import CouplingMap.Proofs.Device.Refinement
import CouplingMap.Proofs.Device.Shape
import Mathlib.Data.List.ReduceOption

/-!
# What edits do to the listing

Edits keep the order in which nodes and connections are listed. A new connection takes the slot
that was emptied last, which can be told from the edits before it: `vacated` goes through them and
never looks at the list of empty slots that a device keeps.

* `Device.slotted`: the connections with the gaps that removals left.
* `Device.emptiedBy`, `Device.vacated`: the slots that an edit empties, and those that are empty
  after many edits, the one emptied last first. `freed_edit` is one edit, `freed_runAll` many.
* `Device.Admits`, `Device.Frame`: which edits a device takes, and how the listings before and
  after it differ.
* `Device.edit_frame`: every edit after any history.
-/

namespace CouplingMap

open Connection

namespace Slots

variable {α : Type} {s : Slots α} {p q : α → Bool} {x : α}

/-- Which slots are chosen depends on the things in the slots only. -/
theorem having_congr (h : ∀ x ∈ s.toList, p x = q x) (key : α → Nat) :
    s.having p key = s.having q key := by
  simp only [having]
  congr 1
  refine List.filter_congr fun i _ => ?_
  rw [List.getElem?_toArray]
  show (s.get? i).any p = (s.get? i).any q
  cases hx : s.get? i with
  | none => rfl
  | some x => exact h x (mem_toList.2 ⟨i, hx⟩)

/-- A slot that something enters is not empty any more. -/
theorem filter_freed_insert (s : Slots α) (x : α) :
    s.freed.filter (fun k => k ∈ (s.insert x).freed) = s.freed.tail := by
  show s.freed.filter (fun k => k ∈ s.freed.tail) = _
  have hn := s.freed_nodup
  cases hf : s.freed with
  | nil => rfl
  | cons k rest =>
    rw [hf] at hn
    have hk : decide (k ∈ rest) = false := decide_eq_false (List.nodup_cons.1 hn).1
    rw [List.tail_cons, List.filter_cons, hk, if_neg Bool.false_ne_true]
    exact List.filter_eq_self.2 fun m hm => decide_eq_true hm

end Slots

/-- The connection that an edit enters. -/
def Edit.entered? : Edit → Option Connection
  | .connect a b => some ⟨a, b, Device.defaultWeight⟩
  | .connectWeighted a b w => some ⟨a, b, w⟩
  | .addNode _ | .removeNode _ | .disconnect .. => none

namespace Device

variable {d e : Device} {a b n : Node} {c : Connection} {x : Edit} {l : Link} {k i j : Nat}

/-! ## Slots -/

/-- The connections in slot order, with the empty slots. -/
def slotted (d : Device) : List (Option Connection) :=
  d.links.cells.map fun l? => l?.bind (Link.connection? d.seats.get?)

/-- The listing leaves the empty slots out. -/
theorem connections_eq_slotted (d : Device) : d.connections = d.slotted.reduceOption := by
  rw [connections_eq, Slots.toList, List.filterMap_filterMap, List.reduceOption, slotted,
    List.filterMap_map]
  rfl

/-- In every slot that is taken stands a connection between two nodes. -/
theorem exists_connection? (h : d.links.get? k = some l) :
    ∃ c, l.connection? d.seats.get? = some c := by
  obtain ⟨a, ha⟩ := d.mem_order.1 (d.link_fits h).source_mem
  obtain ⟨b, hb⟩ := d.mem_order.1 (d.link_fits h).target_mem
  exact ⟨⟨a, b, l.weight⟩, Link.connection?_eq_some.2 ⟨ha, hb, rfl⟩⟩

/-- The slots without a connection are those that the device keeps a list of. -/
theorem mem_freed_links : k ∈ d.links.freed ↔ d.slotted[k]? = some none := by
  rw [d.links.mem_freed, slotted, List.getElem?_map, Option.map_eq_some_iff]
  constructor
  · exact fun h => ⟨none, h, rfl⟩
  · rintro ⟨l?, hl, hnone⟩
    cases l? with
    | none => exact hl
    | some l =>
      obtain ⟨c, hc⟩ := exists_connection? (Slots.get?_eq_some.2 hl)
      exact absurd (hnone.symm.trans hc) (Option.some_ne_none c).symm

/-- The slots of the connections that satisfy `p`, the one entered last first. -/
def slotsOf (d : Device) (p : Connection → Bool) : List Nat :=
  d.links.having (fun l => (l.connection? d.seats.get?).any p) Link.serial

/-- Connections are chosen by their nodes or by the seats of these. -/
theorem slotsOf_eq {p : Connection → Bool} {q : Link → Bool}
    (h : ∀ l c, l.connection? d.seats.get? = some c → p c = q l) :
    d.slotsOf p = d.links.having q Link.serial := by
  refine Slots.having_congr (fun l hl => ?_) _
  obtain ⟨k, hk⟩ := Slots.mem_toList.1 hl
  obtain ⟨c, hc⟩ := exists_connection? hk
  rw [hc, Option.any_some, h l c hc]

/-- The slots that an edit empties, in the order in which it does. A node gives up the connections
from it before those to it, the one entered last first in both groups. -/
def emptiedBy (d : Device) : Edit → List Nat
  | .removeNode n => d.slotsOf (fun c => c.source = n) ++ d.slotsOf fun c => c.target = n
  | .disconnect a b => d.slotsOf fun c => c.joins a b
  | .addNode _ | .connect .. | .connectWeighted .. => []

/-- The slots that are empty after edits, the one emptied last first, given those that are empty
before. -/
def vacated (d : Device) (ks : List Nat) : List Edit → List Nat
  | [] => ks
  | x :: xs =>
    match d.edit x with
    | .ok e =>
      e.vacated (((d.emptiedBy x).reverse ++ ks).filter fun k => e.slotted[k]? = some none) xs
    | .error _ => d.vacated ks xs

theorem emptiedBy_of_entered? (hx : x.entered? = some c) : d.emptiedBy x = [] := by
  cases x with
  | connect _ _ => rfl
  | connectWeighted _ _ _ => rfl
  | addNode _ => contradiction
  | removeNode _ => contradiction
  | disconnect _ _ => contradiction

/-! ## What an edit does to the store -/

/-- The edits that a device takes. -/
def Admits (d : Device) : Edit → Prop
  | .addNode n => n ∉ d.nodes
  | .removeNode n => n ∈ d.nodes
  | .connect a b => Connection.Fits ⟨a, b, defaultWeight⟩ d.nodes
  | .connectWeighted a b w => Connection.Fits ⟨a, b, w⟩ d.nodes
  | .disconnect a b => ∃ c ∈ d.connections, c.ends = (a, b)

/-- What is done for an edit that a device takes. -/
inductive Steps (d : Device) : Edit → Device → Prop
  | addNode {n : Node} (hn : d.contains n = false) : Steps d (.addNode n) (d.withNode n hn)
  | removeNode {n : Node} {i : Nat} (hi : d.seats.get? i = some n) :
      Steps d (.removeNode n) ((d.isolate i).forget (get?_seats_isolate hi) touches_isolate)
  | reweigh {x : Edit} {c : Connection} {l : Link} (hx : x.entered? = some c) (hl : l.Fits d.order)
      (hc : l.connection? d.seats.get? = some c) (hmem : c.ends ∈ d.connections.map ends) :
      Steps d x (d.reweigh l hl)
  | enter {x : Edit} {c : Connection} {l : Link} (hx : x.entered? = some c) (hl : l.Fits d.order)
      (hc : l.connection? d.seats.get? = some c) (hnone : d.linkAt? l.source l.target = none) :
      Steps d x (d.enter l hl hnone)
  | disconnect {c : Connection} {i j : Nat} (hc : c ∈ d.connections)
      (hs : d.seats.get? i = some c.source) (ht : d.seats.get? j = some c.target) :
      Steps d (.disconnect c.source c.target) (d.cutLink i j)

/-- A connection that fits runs between two seats, which are connected already or not. -/
theorem steps_connect (hx : x.entered? = some c) (hf : c.Fits d.nodes) :
    ∃ e, d.connect c.source c.target c.weight = .ok e ∧ d.Steps x e := by
  obtain ⟨i, hi⟩ := mem_nodes.1 hf.source_mem
  obtain ⟨j, hj⟩ := mem_nodes.1 hf.target_mem
  have hl : Link.Fits ⟨i, j, c.weight, d.nextSerial⟩ d.order :=
    ⟨d.mem_order.2 ⟨_, hi⟩, d.mem_order.2 ⟨_, hj⟩, fun e => hf.ne ((seat_eq_iff hi hj).2 e),
      hf.finite⟩
  have hc : Link.connection? d.seats.get? ⟨i, j, c.weight, d.nextSerial⟩ = some c :=
    Link.connection?_eq_some.2 ⟨hi, hj, rfl⟩
  refine ⟨_, connect_eq_ok hi hj hl, ?_⟩
  unfold put
  split
  · rename_i m hm
    refine .reweigh hx hl hc (List.mem_map.2 ⟨⟨c.source, c.target, m.weight⟩, ?_, rfl⟩)
    rw [← map_find?_eq_some, find?_eq_linkAt? hi hj, hm]
    rfl
  · exact .enter hx hl hc _

/-- A connection of the device is found between two seats. -/
theorem steps_disconnect (hc : c ∈ d.connections) :
    ∃ e, d.disconnect c.source c.target = .ok e ∧ d.Steps (.disconnect c.source c.target) e := by
  obtain ⟨i, hi⟩ := mem_nodes.1 (fits_of_mem hc).source_mem
  obtain ⟨j, hj⟩ := mem_nodes.1 (fits_of_mem hc).target_mem
  have hsome : (d.linkAt? i j).isSome = true := by
    rw [← Option.isSome_map (f := Link.weight), linkAt?_weight hi hj, weight?_network.2 hc]
    rfl
  refine ⟨_, ?_, .disconnect hc hi hj⟩
  rw [disconnect, seat_eq_ok hi, seat_eq_ok hj]
  exact if_pos hsome

/-- An edit that a device takes is done. -/
theorem steps_of_admits (h : d.Admits x) : ∃ e, d.edit x = .ok e ∧ d.Steps x e := by
  cases x with
  | addNode n =>
    have hn : d.contains n = false := contains_eq_false.2 h
    exact ⟨_, dif_pos hn, .addNode hn⟩
  | removeNode n =>
    obtain ⟨i, hi⟩ := mem_nodes.1 h
    refine ⟨_, ?_, .removeNode hi⟩
    rw [edit, removeNode, seat_eq_ok hi]
    rfl
  | connect a b => exact steps_connect (c := ⟨a, b, defaultWeight⟩) rfl h
  | connectWeighted a b w => exact steps_connect (c := ⟨a, b, w⟩) rfl h
  | disconnect a b =>
    obtain ⟨c, hc, hends⟩ := h
    obtain ⟨rfl, rfl⟩ := ends_eq_iff.1 hends
    exact steps_disconnect hc

/-- An edit that is accepted is one that the device takes. -/
theorem admits_of_edit (h : d.edit x = .ok e) : d.Admits x := by
  cases x with
  | addNode n =>
    refine contains_eq_false.1 (eq_false_of_ne_true fun hn => ?_)
    have hadd : d.addNode n = .error (.duplicateNode n) := dif_neg (by rw [hn]; simp)
    exact absurd (hadd.symm.trans h) nofun
  | removeNode n => exact mem_of_removeNode h
  | connect a b => exact (fits_of_connect (c := ⟨a, b, defaultWeight⟩) h).1
  | connectWeighted a b w => exact (fits_of_connect (c := ⟨a, b, w⟩) h).1
  | disconnect a b =>
    have hN : d.network.disconnect a b = .ok e.network := by
      rw [← map_disconnect]
      exact congrArg (Except.map network) h
    unfold Network.disconnect at hN
    split_ifs at hN with ha hb hw
    obtain ⟨w, hw⟩ := Option.ne_none_iff_exists'.1 hw
    exact ⟨_, weight?_network.1 hw, rfl⟩

/-- What an edit that is accepted does. -/
theorem steps_of_edit (h : d.edit x = .ok e) : d.Steps x e := by
  obtain ⟨e', he, hsteps⟩ := steps_of_admits (admits_of_edit h)
  rw [h] at he
  exact Except.ok.inj he ▸ hsteps


/-! ## The slots that are empty -/

/-- Empty slots stay in the list as long as nothing takes them. -/
theorem filter_freed (d : Device) :
    d.links.freed.filter (fun k => d.slotted[k]? = some none) = d.links.freed :=
  List.filter_eq_self.2 fun _ hk => decide_eq_true (mem_freed_links.1 hk)

/-- The slots that are empty after an edit are those that it empties, the last one first, and those
that were empty before and still are. -/
theorem freed_edit (h : d.edit x = .ok e) : e.links.freed =
    ((d.emptiedBy x).reverse ++ d.links.freed).filter fun k => e.slotted[k]? = some none := by
  -- A removal only puts slots in front of the list, and an entry only takes the first one.
  suffices hfreed : e.links.freed = (d.emptiedBy x).reverse ++ d.links.freed ∨
      d.emptiedBy x = [] ∧ d.links.freed.filter (fun k => k ∈ e.links.freed) = e.links.freed by
    obtain hfreed | ⟨hnone, hfreed⟩ := hfreed
    · rw [← hfreed, filter_freed]
    · rw [hnone, ← hfreed]
      exact List.filter_congr fun k _ => decide_eq_decide.2 mem_freed_links
  cases steps_of_edit h with
  | addNode hn => exact .inl rfl
  | @removeNode n i hi =>
    refine .inl ?_
    have hs : d.slotsOf (fun c => c.source = n) =
        d.links.having (fun l => l.source = i) Link.serial :=
      slotsOf_eq fun l c hc => decide_eq_decide.2 (seat_eq_iff (Link.connection?_eq_some.1 hc).1 hi)
    have ht : d.slotsOf (fun c => c.target = n) =
        d.links.having (fun l => l.target = i) Link.serial :=
      slotsOf_eq fun l c hc =>
        decide_eq_decide.2 (seat_eq_iff (Link.connection?_eq_some.1 hc).2.1 hi)
    rw [emptiedBy, hs, ht]
    rfl
  | reweigh hx hl hc hmem =>
    refine .inl ?_
    rw [emptiedBy_of_entered? hx]
    rfl
  | enter hx hl hc hnone => exact .inr ⟨emptiedBy_of_entered? hx, Slots.filter_freed_insert _ _⟩
  | @disconnect c i j hc hs ht =>
    refine .inl ?_
    have hjoins : d.slotsOf (fun x => x.joins c.source c.target) =
        d.links.having (fun l => l.runs i j) Link.serial :=
      slotsOf_eq fun l x hx => Bool.eq_iff_iff.2 (joins_iff hx hs ht)
    rw [emptiedBy, hjoins]
    rfl

/-- The slots that are empty after edits can be told from the edits. -/
theorem freed_runAll (d : Device) (xs : List Edit) :
    (Edit.runAll edit d xs).1.links.freed = d.vacated d.links.freed xs := by
  induction xs generalizing d with
  | nil => rfl
  | cons x xs ih =>
    unfold Edit.runAll vacated
    cases he : d.edit x with
    | ok e =>
      simp only
      rw [← freed_edit he]
      exact ih e
    | error _ => exact ih d

/-! ## Listings before and after -/

/-- Only one connection has the ends of `c`. -/
theorem exists_split (h : c ∈ d.connections) : ∃ before after,
    d.connections = before ++ c :: after ∧ ∀ y ∈ before ++ after, y.ends ≠ c.ends := by
  obtain ⟨before, after, hsplit⟩ := List.append_of_mem h
  refine ⟨before, after, hsplit, fun y hy heq => ?_⟩
  have hends := d.ends_nodup
  rw [hsplit, (List.perm_middle.map _).nodup_iff, List.map_cons, List.nodup_cons] at hends
  exact hends.1 (heq ▸ List.mem_map_of_mem hy)

/-- How a listing gets a connection, given the slots that are empty, the one emptied last first. -/
inductive Enters (d : Device) (ks : List Nat) (c : Connection) (e : Device) : Prop
  /-- It takes the place of the connection with the same ends. -/
  | replaces {before after : List Connection} {old : Connection} (hends : old.ends = c.ends)
      (hold : d.connections = before ++ old :: after)
      (hnew : e.connections = before ++ c :: after)
  /-- Its ends are new and no slot is empty: it comes last. -/
  | appends (hends : c.ends ∉ d.connections.map ends) (hks : ks = []) (hfull : none ∉ d.slotted)
      (hslots : e.slotted = d.slotted ++ [some c]) (hnew : e.connections = d.connections ++ [c])
  /-- Its ends are new: it takes the slot that was emptied last. -/
  | fills {before after : List (Option Connection)} (hends : c.ends ∉ d.connections.map ends)
      (hks : ks.head? = some before.length)
      (hgap : d.slotted = before ++ none :: after) (hslots : e.slotted = before ++ some c :: after)
      (hold : d.connections = before.reduceOption ++ after.reduceOption)
      (hnew : e.connections = before.reduceOption ++ c :: after.reduceOption)

/-- How an edit that is accepted changes the listings of nodes and connections, given the slots
that are empty before. -/
def Frame (d : Device) (ks : List Nat) (e : Device) : Edit → Prop
  | .addNode n => e.nodes = d.nodes ++ [n] ∧ e.connections = d.connections
  | .removeNode n => e.nodes = d.nodes.filter (fun m => m ≠ n) ∧
      e.connections = d.connections.filter fun c => !c.touches n
  | .connect a b => e.nodes = d.nodes ∧ d.Enters ks ⟨a, b, defaultWeight⟩ e
  | .connectWeighted a b w => e.nodes = d.nodes ∧ d.Enters ks ⟨a, b, w⟩ e
  | .disconnect a b => e.nodes = d.nodes ∧ ∃ before c after, c.ends = (a, b) ∧
      d.connections = before ++ c :: after ∧ e.connections = before ++ after

/-- The edits that enter a connection have the same frame. -/
theorem frame_of_entered? {ks : List Nat} (hx : x.entered? = some c) (hnodes : e.nodes = d.nodes)
    (h : d.Enters ks c e) : d.Frame ks e x := by
  cases x with
  | connect a b =>
    obtain rfl := Option.some.inj hx
    exact ⟨hnodes, h⟩
  | connectWeighted a b w =>
    obtain rfl := Option.some.inj hx
    exact ⟨hnodes, h⟩
  | addNode _ => contradiction
  | removeNode _ => contradiction
  | disconnect _ _ => contradiction

/-- A connection with the ends of another one takes its place. -/
theorem enters_reweigh {ks : List Nat} (hl : l.Fits d.order)
    (hc : l.connection? d.seats.get? = some c) (hmem : c.ends ∈ d.connections.map ends) :
    d.Enters ks c (d.reweigh l hl) := by
  obtain ⟨old, hold, hends⟩ := List.mem_map.1 hmem
  obtain ⟨before, after, hsplit, hother⟩ := exists_split hold
  let f (y : Connection) : Connection :=
    if y.joins c.source c.target then { y with weight := c.weight } else y
  have hkeep (ys : List Connection) (hys : ∀ y ∈ ys, y ∈ before ++ after) : ys.map f = ys := by
    refine (List.map_congr_left fun y hy => if_neg fun hj => ?_).trans (List.map_id ys)
    exact hother y (hys y hy) ((joins_iff_ends.1 hj).trans hends.symm)
  have hchange : f old = c := by
    obtain ⟨hs, ht⟩ := ends_eq_iff.1 hends
    refine (if_pos (joins_iff_ends.2 hends)).trans ?_
    rw [hs, ht]
  refine .replaces hends hsplit ?_
  rw [connections_reweigh hl hc, hsplit]
  show (before ++ old :: after).map f = _
  rw [List.map_append, List.map_cons, hchange, hkeep before fun y => List.mem_append_left _,
    hkeep after fun y => List.mem_append_right _]

/-- A connection with new ends takes the slot that was emptied last, or a new one. -/
theorem enters_enter (hl : l.Fits d.order) (hc : l.connection? d.seats.get? = some c)
    (hnone : d.linkAt? l.source l.target = none) :
    d.Enters d.links.freed c (d.enter l hl hnone) := by
  obtain ⟨hs, ht, -⟩ := Link.connection?_eq_some.1 hc
  have hends : c.ends ∉ d.connections.map ends := by
    rw [List.mem_map]
    rintro ⟨y, hy, heq⟩
    have hy := (linkAt?_eq_none_iff hs ht).1 hnone y hy
    rw [joins_iff_ends.2 heq] at hy
    contradiction
  cases hfreed : d.links.freed with
  | nil =>
    have hslots : (d.enter l hl hnone).slotted = d.slotted ++ [some c] := by
      show (d.links.insert l).cells.map _ = d.links.cells.map _ ++ [some c]
      rw [Slots.cells_insert_of_nil hfreed, List.map_append, ← hc]
      rfl
    refine .appends hends rfl (fun hmem => ?_) hslots ?_
    · obtain ⟨k, hk⟩ := List.mem_iff_getElem?.1 hmem
      exact List.not_mem_nil (hfreed ▸ mem_freed_links.2 hk)
    · rw [connections_eq_slotted, connections_eq_slotted, hslots, List.reduceOption_append]
      rfl
  | cons k rest =>
    have hslots : (d.enter l hl hnone).slotted = d.slotted.set k (some c) := by
      show (d.links.insert l).cells.map _ = (d.links.cells.map _).set k (some c)
      rw [Slots.cells_insert_of_cons hfreed, List.map_set, ← hc]
      rfl
    -- The slot splits the listing into what comes before it and what comes after it.
    have hk : d.slotted[k]? = some none := mem_freed_links.1 (hfreed ▸ List.mem_cons_self)
    obtain ⟨hlt, hget⟩ := List.getElem?_eq_some_iff.1 hk
    obtain ⟨before, after, hgap, rfl⟩ :
        ∃ before after, d.slotted = before ++ none :: after ∧ before.length = k := by
      refine ⟨d.slotted.take k, d.slotted.drop (k + 1), ?_, List.length_take_of_le hlt.le⟩
      rw [← hget, ← List.drop_eq_getElem_cons, List.take_append_drop]
    rw [hgap, List.set_append_right _ _ (Nat.le_refl _), Nat.sub_self, List.set_cons_zero] at hslots
    refine .fills hends rfl hgap hslots ?_ ?_
    · rw [connections_eq_slotted, hgap, List.reduceOption_append, List.reduceOption_cons_of_none]
    · rw [connections_eq_slotted, hslots, List.reduceOption_append, List.reduceOption_cons_of_some]

/-- Every edit that is accepted keeps what it does not touch in order. -/
theorem frame_edit (h : d.edit x = .ok e) : d.Frame d.links.freed e x := by
  cases steps_of_edit h with
  | addNode hn => exact ⟨nodes_withNode .., connections_withNode ..⟩
  | removeNode hi => exact ⟨nodes_of_removeNode h, connections_of_removeNode h⟩
  | reweigh hx hl hc hmem => exact frame_of_entered? hx rfl (enters_reweigh hl hc hmem)
  | enter hx hl hc hnone => exact frame_of_entered? hx rfl (enters_enter hl hc hnone)
  | @disconnect c i j hc hs ht =>
    obtain ⟨before, after, hsplit, hother⟩ := exists_split hc
    refine ⟨rfl, before, c, after, rfl, hsplit, ?_⟩
    have hkeep (ys : List Connection) (hys : ∀ y ∈ ys, y ∈ before ++ after) :
        ys.filter (fun y => !y.joins c.source c.target) = ys :=
      List.filter_eq_self.2 fun y hy => Bool.not_eq_true' _ ▸
        eq_false_of_ne_true fun hj => hother y (hys y hy) (joins_iff_ends.1 hj)
    have hgone : (!c.joins c.source c.target) = false := by rw [joins_iff_ends.2 rfl]; rfl
    rw [connections_cutLink hs ht, hsplit, List.filter_append, List.filter_cons, hgone,
      if_neg Bool.false_ne_true, hkeep before fun y => List.mem_append_left _,
      hkeep after fun y => List.mem_append_right _]

/-! ## Any history -/

/-- Edits that add something leave no slot empty. -/
theorem freed_edit_eq_nil (h : d.edit x = .ok e) (hx : d.emptiedBy x = [])
    (hd : d.links.freed = []) : e.links.freed = [] := by
  rw [freed_edit h, hx, hd]
  rfl

theorem freed_ensureNode (d : Device) (n : Node) :
    (d.ensureNode n).links.freed = d.links.freed := by
  unfold ensureNode
  split <;> rfl

/-- Additions leave no slot empty. -/
theorem freed_foldlM {α : Type} {f : Device → α → Except DeviceError Device} {xs : List α}
    (hstep : ∀ {d x e}, f d x = .ok e → d.links.freed = [] → e.links.freed = [])
    (h : xs.foldlM f d = .ok e) (hd : d.links.freed = []) : e.links.freed = [] := by
  induction xs generalizing d with
  | nil => exact Except.ok.inj h ▸ hd
  | cons x xs ih =>
    rw [List.foldlM_cons] at h
    cases hx : f d x with
    | error _ => rw [hx] at h; contradiction
    | ok d' =>
      rw [hx] at h
      exact ih h (hstep hx hd)

theorem freed_ofNodes {ns : List Node} (h : ofNodes ns = .ok d) : d.links.freed = [] :=
  freed_foldlM (fun {_ n _} hn => freed_edit_eq_nil (x := .addNode n) hn rfl) h rfl

theorem freed_ofParts {ns : List Node} {cs : List Connection} (h : ofParts ns cs = .ok d) :
    d.links.freed = [] := by
  rw [ofParts_eq] at h
  cases hns : ofNodes ns with
  | error _ => rw [hns] at h; contradiction
  | ok e =>
    rw [hns] at h
    exact freed_foldlM (fun {_ c _} hc => freed_edit_eq_nil
      (x := .connectWeighted c.source c.target c.weight) hc rfl) h (freed_ofNodes hns)

/-- No slot of a device that was just made is empty. -/
theorem freed_start {s : Start} (h : start s = .ok d) : d.links.freed = [] := by
  cases s with
  | empty => exact Except.ok.inj h ▸ rfl
  | nodes ns => exact freed_ofNodes h
  | connections ps =>
    refine freed_foldlM (d := empty) (fun {d p _} hp hd => ?_) h rfl
    refine freed_edit_eq_nil (x := .connect p.1 p.2) hp rfl ?_
    rw [freed_ensureNode, freed_ensureNode, hd]
  | parts ns ps => exact freed_ofParts h
  | weightedParts ns cs => exact freed_ofParts h

/-- After any history, a device takes the edits that it admits and no others, and an edit that is
accepted changes no more of the listings than it should. -/
theorem edit_frame (s : Start) (xs : List Edit) (x : Edit) :
    match start s with
    | .error _ => True
    | .ok made =>
      let d := (Edit.runAll edit made xs).1
      match d.edit x with
      | .error _ => ¬ d.Admits x
      | .ok e => d.Admits x ∧ d.Frame (made.vacated [] xs) e x := by
  cases hs : start s with
  | error _ => trivial
  | ok made =>
    have hrun := freed_runAll made xs
    rw [freed_start hs] at hrun
    simp only
    generalize (Edit.runAll edit made xs).1 = d at hrun
    cases he : d.edit x with
    | error _ =>
      intro hx
      obtain ⟨e, hok, -⟩ := steps_of_admits hx
      rw [he] at hok
      contradiction
    | ok e =>
      rw [← hrun]
      exact ⟨admits_of_edit he, frame_edit he⟩

end Device

end CouplingMap
