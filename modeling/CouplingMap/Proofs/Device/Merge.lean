import CouplingMap.Device.Build
import CouplingMap.Proofs.Json.Reader
import Mathlib.Data.List.Induction
import Mathlib.Data.List.Nodup

/-!
# Lists with repeated connections

A list may have several connections from one node to another. They become one connection of the
device, in the place of the first, with the weight of the last.

* `Connection.merge`, `Connection.mergeAll`: lists without the repetitions. `map_ends_mergeAll` says
  in which order the ends come, and `mem_mergeAll` which weights stay.
* `Device.ofParts_merge`, `Device.fits_of_ofParts`: the lists that make a device, and the device
  that they make.
-/

namespace CouplingMap

/-! ## Merging lists -/

namespace Connection

/-- The list with one connection more, which takes the place of one with the same ends. -/
def merge (cs : List Connection) (c : Connection) : List Connection :=
  if c.ends ∈ cs.map ends then cs.map fun x => if x.ends = c.ends then c else x else cs ++ [c]

/-- The connections of a list, those with the same ends merged. -/
def mergeAll (cs : List Connection) : List Connection := cs.foldl merge []

variable {cs : List Connection} {c x : Connection}

theorem ends_eq_iff {a b : Node} : x.ends = (a, b) ↔ x.source = a ∧ x.target = b := by
  rw [ends, Prod.mk.injEq]

theorem joins_iff_ends {a b : Node} : x.joins a b = true ↔ x.ends = (a, b) :=
  joins_iff.trans ends_eq_iff.symm

theorem mergeAll_concat (cs : List Connection) (c : Connection) :
    mergeAll (cs ++ [c]) = merge (mergeAll cs) c := List.foldl_concat ..

/-- New ends come last, and others stay where they are. -/
theorem map_ends_merge (cs : List Connection) (c : Connection) : (merge cs c).map ends =
    if c.ends ∈ cs.map ends then cs.map ends else cs.map ends ++ [c.ends] := by
  unfold merge
  split
  · rw [List.map_map]
    refine List.map_congr_left fun x _ => ?_
    rw [Function.comp_apply]
    split
    · exact Eq.symm ‹_›
    · rfl
  · rw [List.map_append, List.map_singleton]

/-- The new connection is the only one with its ends. -/
theorem mem_merge : x ∈ merge cs c ↔ if x.ends = c.ends then x = c else x ∈ cs := by
  unfold merge
  split
  · rename_i hmem
    rw [List.mem_map]
    constructor
    · rintro ⟨y, hy, rfl⟩
      by_cases hends : y.ends = c.ends
      · rw [if_pos hends, if_pos rfl]
      · rw [if_neg hends, if_neg hends]
        exact hy
    · intro hx
      split at hx
      · obtain ⟨y, hy, hends⟩ := List.mem_map.1 hmem
        exact ⟨y, hy, (if_pos hends).trans hx.symm⟩
      · exact ⟨x, hx, if_neg ‹_›⟩
  · rename_i hmem
    rw [List.mem_append, List.mem_singleton]
    split
    · rename_i hends
      refine or_iff_right fun hx => hmem ?_
      exact hends ▸ List.mem_map_of_mem hx
    · rename_i hends
      exact or_iff_left fun hx => hends (congrArg ends hx)

/-- The pairs of ends are listed by their first occurrence. -/
theorem map_ends_mergeAll (cs : List Connection) :
    (mergeAll cs).map ends = (cs.map ends).eraseDups := by
  induction cs using List.reverseRecOn with
  | nil => rfl
  | append_singleton cs c ih =>
    rw [mergeAll_concat, map_ends_merge, ih, List.map_append, List.map_singleton,
      List.eraseDups_append]
    generalize cs.map ends = ps
    by_cases hmem : c.ends ∈ ps
    · rw [if_pos (List.mem_eraseDups.2 hmem)]
      simp [List.removeAll, hmem]
    · rw [if_neg fun h => hmem (List.mem_eraseDups.1 h)]
      simp [List.removeAll, hmem, List.eraseDups_cons]

/-- Of the connections with the same ends the last one stays. -/
theorem mem_mergeAll :
    x ∈ mergeAll cs ↔ (cs.filter fun y => y.ends = x.ends).getLast? = some x := by
  induction cs using List.reverseRecOn with
  | nil => exact ⟨nofun, nofun⟩
  | append_singleton cs c ih =>
    rw [mergeAll_concat, mem_merge, ih, List.filter_append]
    by_cases hends : c.ends = x.ends
    · have hlast : [c].filter (fun y => y.ends = x.ends) = [c] := by simp [hends]
      rw [if_pos hends.symm, hlast, List.getLast?_concat, Option.some.injEq]
      exact eq_comm
    · have hother : [c].filter (fun y => y.ends = x.ends) = [] := by simp [hends]
      rw [if_neg (Ne.symm hends), hother, List.append_nil]

end Connection

namespace Device

open Connection

variable {d e : Device} {ns : List Node} {cs ds : List Connection} {c : Connection}

/-! ## One connection more -/

/-- One connection more that fits does not disturb. -/
theorem Fitting.merge (h : Fitting ns cs) (hc : c.Fits ns) :
    Fitting ns (Connection.merge cs c) := by
  refine ⟨h.nodes_nodup, fun x hx => ?_, ?_⟩
  · rw [mem_merge] at hx
    split at hx
    · exact hx ▸ hc
    · exact h.fits x hx
  · rw [map_ends_merge]
    split
    · exact h.ends_nodup
    · rename_i hmem
      exact List.nodup_append.2 ⟨h.ends_nodup, List.nodup_singleton _, by
        rintro p hp q hq rfl
        exact hmem (List.mem_singleton.1 hq ▸ hp)⟩

/-- A link runs between the seats of another one just if it has the same ends. -/
theorem reweighed_rowLink {x : Connection} (hc : c.Fits ns) (hx : x.Fits ns) (serial k : Nat) :
    reweighed (rowLink (rowBins ns) serial c) (rowLink (rowBins ns) k x) =
      rowLink (rowBins ns) k (if x.ends = c.ends then c else x) := by
  have hruns : (rowLink (rowBins ns) k x).runs (rowLink (rowBins ns) serial c).source
      (rowLink (rowBins ns) serial c).target = true ↔ x.ends = c.ends := by
    rw [Link.runs_iff]
    refine Iff.trans ?_ ends_eq_iff.symm
    exact and_congr (placeIn_inj hx.source_mem hc.source_mem)
      (placeIn_inj hx.target_mem hc.target_mem)
  unfold reweighed
  by_cases hends : x.ends = c.ends
  · rw [if_pos (hruns.2 hends), if_pos hends]
    obtain ⟨hs, ht⟩ := ends_eq_iff.1 hends
    rw [rowLink, rowLink, rowLink, hs, ht]
  · rw [if_neg fun hr => hends (hruns.1 hr), if_neg hends]

/-- A new weight changes one connection of a row. -/
theorem reweigh_ofFitting (h : Fitting ns cs) (hc : c.Fits ns) (hmem : c.ends ∈ cs.map ends)
    {serial : Nat} (hl : (rowLink (rowBins ns) serial c).Fits (ofFitting ns cs h).order) :
    (ofFitting ns cs h).reweigh (rowLink (rowBins ns) serial c) hl =
      ofFitting ns (Connection.merge cs c) (h.merge hc) := by
  have hmerge : Connection.merge cs c = cs.map fun x => if x.ends = c.ends then c else x :=
    if_pos hmem
  refine Device.ext rfl rfl rfl (Slots.ext ?_ rfl) ?_
  · show ((rowLinks ns cs).map some).map (Option.map (reweighed _)) =
      (rowLinks ns (Connection.merge cs c)).map some
    rw [hmerge, rowLinks, rowLinks]
    refine List.ext_getElem? fun k => ?_
    simp only [List.getElem?_map, List.getElem?_mapIdx]
    cases hx : cs[k]? with
    | none => rfl
    | some x =>
      have hf := h.fits x (List.mem_of_getElem? hx)
      exact congrArg (some ∘ some) (reweighed_rowLink hc hf serial k)
  · show cs.length = (Connection.merge cs c).length
    rw [hmerge, List.length_map]

/-- One connection more is merged into a row. -/
theorem connect_merge (h : Fitting ns cs) (hc : c.Fits ns) :
    (ofFitting ns cs h).connect c.source c.target c.weight =
      .ok (ofFitting ns (Connection.merge cs c) (h.merge hc)) := by
  by_cases hmem : c.ends ∈ cs.map ends
  · have hs := get?_seats_ofFitting h hc.source_mem
    have ht := get?_seats_ofFitting h hc.target_mem
    have hl := fits_rowLink h hc cs.length
    obtain ⟨x, hx, hends⟩ := List.mem_map.1 hmem
    have hput : (ofFitting ns cs h).put (rowLink (rowBins ns) cs.length c) hl =
        (ofFitting ns cs h).reweigh (rowLink (rowBins ns) cs.length c) hl := by
      unfold put
      split
      · rfl
      · rename_i hnone
        have hjoins := (linkAt?_eq_none_iff hs ht).1 hnone x
        rw [connections_ofFitting, joins_iff_ends.2 hends] at hjoins
        exact absurd (hjoins hx) (by decide)
    refine (connect_eq_ok hs ht hl).trans (congrArg Except.ok (hput.trans ?_))
    exact reweigh_ofFitting h hc hmem hl
  · have hmerge : Connection.merge cs c = cs ++ [c] := if_neg hmem
    have hfresh : Fitting ns (cs ++ [c]) := hmerge ▸ h.merge hc
    rw [connect_ofFitting h hfresh]
    simp only [hmerge]

/-- Connections that fit are merged into a row one by one. -/
theorem connectAll_merge (h : Fitting ns cs) (hds : ∀ c ∈ ds, c.Fits ns) :
    ∃ h', (ofFitting ns cs h).connectAll ds =
      .ok (ofFitting ns (ds.foldl Connection.merge cs) h') := by
  induction ds generalizing cs with
  | nil => exact ⟨h, rfl⟩
  | cons c ds ih =>
    obtain ⟨hc, hds⟩ := List.forall_mem_cons.1 hds
    rw [connectAll, List.foldlM_cons, connect_merge h hc]
    exact ih (h.merge hc) hds

/-! ## What is refused -/

/-- A connection that is taken fits. -/
theorem fits_of_connect (h : d.connect c.source c.target c.weight = .ok e) :
    c.Fits d.nodes ∧ e.nodes = d.nodes := by
  obtain ⟨⟨i, hi⟩, -, h⟩ := bind_eq_ok.1 h
  obtain ⟨⟨j, hj⟩, -, h⟩ := bind_eq_ok.1 h
  split at h
  · contradiction
  · rename_i hij
    split at h
    · rename_i hw
      obtain rfl := Except.ok.inj h
      refine ⟨⟨mem_nodes.2 ⟨i, hi⟩, mem_nodes.2 ⟨j, hj⟩, fun heq => hij ?_, hw⟩, nodes_put ..⟩
      exact (seat_eq_iff hi hj).1 heq
    · contradiction

theorem fits_of_connectAll (h : d.connectAll cs = .ok e) : ∀ c ∈ cs, c.Fits d.nodes := by
  induction cs generalizing d with
  | nil => simp
  | cons c cs ih =>
    rw [connectAll, List.foldlM_cons] at h
    obtain ⟨d', hd', h⟩ := bind_eq_ok.1 h
    obtain ⟨hc, hnodes⟩ := fits_of_connect hd'
    exact List.forall_mem_cons.2 ⟨hc, hnodes ▸ ih h⟩

/-- Nodes that are taken come last, in order. -/
theorem nodes_of_addNodes (h : d.addNodes ns = .ok e) : e.nodes = d.nodes ++ ns := by
  induction ns generalizing d with
  | nil =>
    obtain rfl := Except.ok.inj h
    exact (List.append_nil _).symm
  | cons n ns ih =>
    rw [addNodes, List.foldlM_cons] at h
    obtain ⟨d', hd', h⟩ := bind_eq_ok.1 h
    unfold addNode at hd'
    split at hd'
    · obtain rfl := Except.ok.inj hd'
      rw [ih h, nodes_withNode, List.append_assoc]
      rfl
    · contradiction

/-- Different nodes and connections that fit make a device. It has the nodes as they are listed and
the connections merged. -/
theorem ofParts_merge (hns : ns.Nodup) (hcs : ∀ c ∈ cs, c.Fits ns) :
    ∃ h, ofParts ns cs = .ok (ofFitting ns (mergeAll cs) h) := by
  have hempty : Fitting [] [] := ⟨.nil, by simp, .nil⟩
  have hrow : Fitting ns [] := ⟨hns, by simp, .nil⟩
  have hnodes : ofNodes ns = .ok (ofFitting ns [] hrow) :=
    addNodes_ofFitting (List.nil_append ns) hempty hrow
  rw [ofParts_eq, hnodes]
  exact connectAll_merge hrow hcs

/-- No other lists make a device. -/
theorem fits_of_ofParts (h : ofParts ns cs = .ok d) : ns.Nodup ∧ ∀ c ∈ cs, c.Fits ns := by
  rw [ofParts_eq] at h
  obtain ⟨e, he, h⟩ := bind_eq_ok.1 h
  have hnodes : e.nodes = ns := nodes_of_addNodes he
  exact hnodes ▸ ⟨e.nodes_nodup, fits_of_connectAll h⟩

end Device

end CouplingMap
