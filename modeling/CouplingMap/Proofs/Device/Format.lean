import CouplingMap.Proofs.Device.Merge
import CouplingMap.Proofs.Device.Refinement
import CouplingMap.Proofs.Device.Description
import CouplingMap.Proofs.Json.Form

/-!
# Values that describe a device

The form of a description is written out on values, without decoders. A value describes a device
just if it has this form and the nodes and links listed in it obey the rules of a device.

* `Node.Form`, `Description.LinkForm`, `Description.LinksForm`, `Description.Form`: the forms.
  `Description.accepts` says that the decoder accepts just these.
* `Device.Follows`: a device is what a description lists.
* `Device.ofJson_exact`: which values describe a device, and which device they describe.
-/

namespace CouplingMap

open Json Json.Decoder

/-! ## Forms -/

/-- The form of a node: a register that has a name, and one to three integers of 32 bits. -/
def Node.Form (v : Json) (n : Node) : Prop :=
  ∃ (name : String) (is : List Int), v = .list [.string name, .list (is.map (.number ∘ .integer))] ∧
    name ≠ "" ∧ 1 ≤ is.length ∧ is.length ≤ 3 ∧ (∀ i ∈ is, 0 ≤ i ∧ i < 2 ^ 32) ∧
    n.register = name ∧ n.index.map (fun i => (i.toNat : Int)) = is

namespace Description

/-- The form of a link: its two nodes and its weight, as members of an object or as the items of a
list. Other members do not matter. -/
inductive LinkForm : Json → Connection → Prop where
  | object {ms : List (String × Json)} {x y : Json} {a b : Node} {n : Number}
      (hlink : lookup "link" ms = some (.list [x, y])) (ha : a.Form x) (hb : b.Form y)
      (hweight : lookup "weight" ms = some (.number n)) :
      LinkForm (.object ms) ⟨a, b, n.toBinary64⟩
  | list {x y : Json} {a b : Node} {n : Number} (ha : a.Form x) (hb : b.Form y) :
      LinkForm (.list [.list [x, y], .number n]) ⟨a, b, n.toBinary64⟩

/-- The form of the links: they may be left out or null. -/
inductive LinksForm : Option Json → List Connection → Prop where
  | absent : LinksForm none []
  | null : LinksForm (some .null) []
  | list {vs : List Json} {ls : List Connection} (h : List.Forall₂ LinkForm vs ls) :
      LinksForm (some (.list vs)) ls

/-- The form of a description: the nodes and the links, as members of an object or as the items of a
list. Other members do not matter. -/
inductive Form : Json → Description → Prop where
  | object {ms : List (String × Json)} {vs : List Json} {ns : List Node} {ls : List Connection}
      (hnodes : lookup "nodes" ms = some (.list vs)) (hns : List.Forall₂ (fun v n => n.Form v) vs ns)
      (hlinks : LinksForm (lookup "links" ms) ls) : Form (.object ms) ⟨ns, ls⟩
  | nodes {vs : List Json} {ns : List Node} (hns : List.Forall₂ (fun v n => n.Form v) vs ns) :
      Form (.list [.list vs]) ⟨ns, []⟩
  | list {vs : List Json} {w : Json} {ns : List Node} {ls : List Connection}
      (hns : List.Forall₂ (fun v n => n.Form v) vs ns) (hlinks : LinksForm (some w) ls) :
      Form (.list [.list vs, w]) ⟨ns, ls⟩

end Description

/-! ## Decoders accept the forms -/

/-- The form of a node is its JSON form. -/
theorem Node.form_iff {v : Json} {n : Node} : n.Form v ↔ n.register ≠ "" ∧ v = n.toJson := by
  constructor
  · rintro ⟨name, is, rfl, hname, -, -, -, rfl, rfl⟩
    exact ⟨hname, by rw [toJson, List.map_map]; rfl⟩
  · rintro ⟨hname, rfl⟩
    refine ⟨n.register, _, by rw [toJson, List.map_map]; rfl, hname, ?_, ?_, ?_, rfl, rfl⟩
    · cases h : n.coordinates <;> simp [index, h, Coordinates.toList]
    · cases h : n.coordinates <;> simp [index, h, Coordinates.toList]
    · simp only [List.forall_mem_map]
      exact fun i _ => ⟨Int.natCast_nonneg _, mod_cast i.toNat_lt⟩

theorem Node.accepts : decoder.Accepts fun v n => n.Form v := by
  have hparts := accepts_string.pair "tuple struct RawNode" (twoElements "tuple struct RawNode")
    accepts_uint32.list
  have h := hparts.check fun p => (ofParts p.1 p.2).mapError NodeError.message
  intro v n
  refine (h v n).trans (Iff.trans ?_ form_iff.symm)
  simp only [mapError_eq_ok, ofParts_eq_ok_iff]
  have hindex {vs : List Json} {is : List UInt32} :
      List.Forall₂ (fun v i => v = .number (.integer (i.toNat : Int))) vs is ↔
        vs = is.map fun i => .number (.integer i.toNat) := by
    rw [← List.forall₂_eq_eq_eq, List.forall₂_map_right_iff]
  constructor
  · rintro ⟨⟨name, is⟩, ⟨_, _, rfl, rfl, _, rfl, his⟩, hname, rfl, rfl⟩
    exact ⟨hname, by rw [hindex.1 his]; rfl⟩
  · rintro ⟨hname, rfl⟩
    exact ⟨(n.register, n.index), ⟨_, _, rfl, rfl, _, rfl, hindex.2 rfl⟩, hname, rfl, rfl⟩

namespace Description

theorem accepts_link : linkDecoder.Accepts LinkForm := by
  have hends := Node.accepts.pair pairTitle pairTitle Node.accepts
  have hrecord := Accepts.record "struct LinkEntry" (f := ⟨"link", _, none⟩)
    (g := ⟨"weight", _, none⟩) hends accepts_double
  intro v l
  refine (hrecord.map _ v l).trans ?_
  constructor
  · rintro ⟨⟨⟨a, b⟩, w⟩, ⟨ms, rfl, hlink, hweight⟩ | ⟨vs, rfl, hlength, hlink, hweight⟩, rfl⟩
    · obtain ⟨_, hms, x, y, rfl, ha, hb⟩ := given_none.1 hlink
      obtain ⟨_, hms', n, rfl, rfl⟩ := given_none.1 hweight
      exact .object hms ha hb hms'
    · match vs with
      | [] => contradiction
      | [_] => contradiction
      | [_, _] =>
        obtain ⟨x, y, rfl, ha, hb⟩ := hlink
        obtain ⟨n, rfl, rfl⟩ := hweight
        exact .list ha hb
      | _ :: _ :: _ :: _ => simp at hlength
  · intro h
    cases h with
    | object hlink ha hb hweight =>
      exact ⟨((_, _), _), .inl ⟨_, rfl, given_none.2 ⟨_, hlink, _, _, rfl, ha, hb⟩,
        given_none.2 ⟨_, hweight, _, rfl, rfl⟩⟩, rfl⟩
    | list ha hb =>
      exact ⟨((_, _), _), .inr ⟨_, rfl, Nat.le_refl 2, ⟨_, _, rfl, ha, hb⟩, _, rfl, rfl⟩, rfl⟩

/-- Links that are left out are as good as null, and both as an empty list. -/
theorem given_links {v? : Option Json} {ls : List Connection} :
    (∃ links, Given (some none) (fun v o => v = .null ∧ o = none ∨
      v ≠ .null ∧ ∃ as, o = some as ∧ ∃ vs, v = .list vs ∧ List.Forall₂ LinkForm vs as) v? links ∧
        links.getD [] = ls) ↔ LinksForm v? ls := by
  constructor
  · rintro ⟨links, hlinks, rfl⟩
    cases v? with
    | none =>
      obtain rfl := Option.some.inj hlinks
      exact .absent
    | some v =>
      obtain ⟨rfl, rfl⟩ | ⟨-, as, rfl, vs, rfl, has⟩ := hlinks
      · exact .null
      · exact .list has
  · intro h
    cases h with
    | absent => exact ⟨none, rfl, rfl⟩
    | null => exact ⟨none, .inl ⟨rfl, rfl⟩, rfl⟩
    | list hls => exact ⟨some ls, .inr ⟨nofun, ls, rfl, _, rfl, hls⟩, rfl⟩

/-- The decoder makes a description of just the values that have its form. -/
theorem accepts : decoder.Accepts Form := by
  have hrecord := Accepts.record "struct DeviceDescription" (f := ⟨"nodes", _, none⟩)
    (g := ⟨"links", _, some none⟩) Node.accepts.list accepts_link.list.orNull
  intro v D
  refine (hrecord.map _ v D).trans ?_
  constructor
  · rintro ⟨⟨ns, links⟩, ⟨ms, rfl, hnodes, hlinks⟩ | ⟨vs, rfl, hlength, hnodes, hlinks⟩, rfl⟩
    · obtain ⟨_, hms, vs, rfl, hns⟩ := given_none.1 hnodes
      exact .object hms hns (given_links.1 ⟨_, hlinks, rfl⟩)
    · have hls := given_links.1 ⟨_, hlinks, rfl⟩
      match vs with
      | [] => contradiction
      | [_] =>
        obtain ⟨vs, rfl, hns⟩ := hnodes
        have hnone : links.getD [] = [] := by
          generalize links.getD [] = ls at hls
          cases hls
          rfl
        show Form _ ⟨ns, links.getD []⟩
        rw [hnone]
        exact .nodes hns
      | [_, w] =>
        obtain ⟨vs, rfl, hns⟩ := hnodes
        exact .list hns hls
      | _ :: _ :: _ :: _ => simp at hlength
  · intro h
    cases h with
    | object hnodes hns hlinks =>
      obtain ⟨links, hgiven, rfl⟩ := given_links.2 hlinks
      exact ⟨(_, links), .inl ⟨_, rfl, given_none.2 ⟨_, hnodes, _, rfl, hns⟩, hgiven⟩, rfl⟩
    | nodes hns => exact ⟨(_, none), .inr ⟨_, rfl, Nat.le_succ 1, ⟨_, rfl, hns⟩, rfl⟩, rfl⟩
    | list hns hlinks =>
      obtain ⟨links, hgiven, rfl⟩ := given_links.2 hlinks
      exact ⟨(_, links), .inr ⟨_, rfl, Nat.le_refl 2, ⟨_, rfl, hns⟩, hgiven⟩, rfl⟩

end Description

/-! ## Weights -/

/-- The numbers that a value can hold: integers of 64 bits, with or without a sign, and finite
doubles. -/
def Json.Number.InRange : Number → Prop
  | .integer i => -2 ^ 63 ≤ i ∧ i < 2 ^ 64
  | .double x => x.isFinite = true

/-- None of these numbers is too large for a double. -/
theorem Json.Number.isFinite_toBinary64 {n : Number} (h : n.InRange) :
    n.toBinary64.isFinite = true := by
  cases n with
  | integer i =>
    obtain ⟨hlow, hhigh⟩ := h
    have habs : i.natAbs ≤ (2 ^ 53 - 1) * 2 ^ 971 :=
      (show i.natAbs ≤ 10 ^ 20 by omega).trans (Binary64.ten_pow_le 20 (by decide))
    refine Binary64.isFinite_ofRatio _ Nat.one_pos ?_
    rw [Nat.cast_one, div_one]
    exact Binary64.cast_le_greatest habs
  | double x => exact h

/-! ## Devices -/

namespace Device

/-- A device is what a description lists: it has the nodes in order, a pair is connected just if a
link joins it, with the weight of the last such link, and the pairs come in the order of their first
links. -/
structure Follows (d : Device) (D : Description) : Prop where
  nodes : d.nodes = D.nodes
  hasConnection : ∀ a b, d.hasConnection a b = true ↔ ∃ l ∈ D.links, l.ends = (a, b)
  weight : ∀ a b l, (D.links.filter fun m => m.ends = (a, b)).getLast? = some l →
    d.weight a b = .ok l.weight
  pairs : d.connections.map Connection.ends = (D.links.map Connection.ends).eraseDups

/-- The weight of a connection can be asked for. -/
theorem weight_of_mem {d : Device} {c : Connection} (h : c ∈ d.connections) :
    d.weight c.source c.target = .ok c.weight := by
  have hs : c.source ∈ d.network.nodes := (fits_of_mem h).source_mem
  have ht : c.target ∈ d.network.nodes := (fits_of_mem h).target_mem
  rw [weight_eq, Network.weight, if_neg (not_not.2 hs), if_neg (not_not.2 ht),
    weight?_network.2 h]

theorem follows_ofFitting (D : Description)
    (h : Fitting D.nodes (Connection.mergeAll D.links)) : (ofFitting D.nodes _ h).Follows D where
  nodes := nodes_ofFitting ..
  hasConnection a b := by
    have hmem : (a, b) ∈ (Connection.mergeAll D.links).map Connection.ends ↔
        (a, b) ∈ D.links.map Connection.ends := by
      rw [Connection.map_ends_mergeAll, List.mem_eraseDups]
    rw [List.mem_map, List.mem_map] at hmem
    simp only [hasConnection_eq_any, connections_ofFitting, List.any_eq_true,
      Connection.joins_iff_ends, hmem]
  weight a b l hlast := by
    obtain ⟨hmem, hends⟩ := List.mem_filter.1 (List.mem_of_getLast? hlast)
    obtain ⟨rfl, rfl⟩ := Prod.mk.inj (of_decide_eq_true hends)
    refine weight_of_mem ?_
    rw [connections_ofFitting]
    exact Connection.mem_mergeAll.2 hlast
  pairs := by rw [connections_ofFitting, Connection.map_ends_mergeAll]

/-- A value describes a device just if it has the form of a description that lists no node twice and
whose links run between different nodes listed in it, with finite weights, as all numbers are that a
value can hold. The device is what the description lists. -/
theorem ofJson_exact (v : Json) :
    ((∃ d, ofJson v = .ok d) ↔ ∃ D, Description.Form v D ∧ D.nodes.Nodup ∧
      ∀ l ∈ D.links, l.Fits D.nodes) ∧
    (∀ d D, ofJson v = .ok d → Description.Form v D → d.Follows D) ∧
    ∀ n : Number, n.InRange → n.toBinary64.isFinite = true := by
  have hmake {d : Device} : ofJson v = .ok d ↔
      ∃ D, Description.Form v D ∧ D.device = .ok d := by
    simp only [ofJson, bind_eq_ok, mapError_eq_ok, Description.accepts v]
  refine ⟨⟨?_, ?_⟩, ?_, fun n => Number.isFinite_toBinary64⟩
  · rintro ⟨d, hd⟩
    obtain ⟨D, hform, hdevice⟩ := hmake.1 hd
    exact ⟨D, hform, fits_of_ofParts hdevice⟩
  · rintro ⟨D, hform, hnodup, hfits⟩
    obtain ⟨h, hdevice⟩ := ofParts_merge hnodup hfits
    exact ⟨_, hmake.2 ⟨D, hform, hdevice⟩⟩
  · intro d D hd hform
    obtain ⟨E, hform', hdevice⟩ := hmake.1 hd
    obtain rfl : D = E :=
      Except.ok.inj (((Description.accepts v D).2 hform).symm.trans
        ((Description.accepts v E).2 hform'))
    obtain ⟨hnodup, hfits⟩ := fits_of_ofParts hdevice
    obtain ⟨h, hmade⟩ := ofParts_merge hnodup hfits
    obtain rfl := Except.ok.inj (hdevice.symm.trans hmade)
    exact follows_ofFitting D h

end Device

end CouplingMap
