import CouplingMap.Proofs.Device.Line
import Mathlib.Data.Set.List

/-!
# The search for lines misses none

A length is left out only when the nodes that no earlier line has taken hold no simple path of that
length. Clearing the edges of used vertices keeps the paths that avoid them, and the search for one
path sees all of them.

* `Device.Greedy`: what is taken for lengths in order, and when a length is left out.
* `Device.greedy_linesFrom`: the lines of a device are taken in this way.
* `Device.Greedy.count_length_of_isLine`: no length is left out for which all choices of nodes are
  lines, such as one and none.
* `Device.lines_exhaustive`: the same for a request.
-/

namespace CouplingMap.Device

open CouplingMap.Graph SimpleGraph

variable {d : Device} {earlier lines : List (List Node)} {lengths : List Nat} {path : List Node}

/-! ## Lines in order -/

/-- A path shares no node with some lines. -/
def Avoids (earlier : List (List Node)) (path : List Node) : Prop :=
  ∀ line ∈ earlier, path.Disjoint line

/-- What is taken for lengths in order, after some lines: a simple path of that length which avoids
the lines taken before, and nothing if there is none. -/
inductive Greedy (d : Device) : List (List Node) → List Nat → List (List Node) → Prop where
  | done (earlier : List (List Node)) : Greedy d earlier [] []
  | take {earlier lines : List (List Node)} {line : List Node} {lengths : List Nat} :
      d.IsLine line → Avoids earlier line → Greedy d (line :: earlier) lengths lines →
      Greedy d earlier (line.length :: lengths) (line :: lines)
  | skip {earlier lines : List (List Node)} {length : Nat} {lengths : List Nat} :
      (∀ path, d.IsLine path → Avoids earlier path → path.length ≠ length) →
      Greedy d earlier lengths lines → Greedy d earlier (length :: lengths) lines

/-! ## Free vertices -/

/-- Between free vertices there are the edges of another table. -/
def KeepsFree {n : Nat} (t s : Ledger (List (Fin n)) n) (used : Ledger Bool n) : Prop :=
  ∀ v w, used[v] = false → used[w] = false → (w ∈ lookup t v ↔ w ∈ lookup s v)

/-- Routes run between free vertices only. -/
theorem KeepsFree.route_iff {n : Nat} {t s : Ledger (List (Fin n)) n} {used : Ledger Bool n}
    (h : KeepsFree t s used) {p : List (Fin n)} :
    Route (lookup t) used p ↔ Route (lookup s) used p := by
  have hchain (hfree : ∀ v ∈ p, used[v] = false) :
      (p.IsChain fun a b => b ∈ lookup t a) ↔ p.IsChain fun a b => b ∈ lookup s a :=
    List.IsChain.iff_of_mem_imp fun a b ha hb => h a b (hfree a ha) (hfree b hb)
  exact ⟨fun hr => ⟨hr.nodup, hr.free, (hchain hr.free).1 hr.chain⟩,
    fun hr => ⟨hr.nodup, hr.free, (hchain hr.free).2 hr.chain⟩⟩

/-- The vertices that are free after some lines are those of nodes on none of them. -/
def FreeAfter (d : Device) (used : Ledger Bool d.size) (earlier : List (List Node)) : Prop :=
  ∀ v : Fin d.size, used[v] = false ↔ ∀ line ∈ earlier, d.nodeAt v ∉ line

theorem freeAfter_nil (d : Device) : d.FreeAfter (.replicate d.size false) [] := by
  simp [FreeAfter]

variable {t : Ledger (List (Fin d.size)) d.size} {used : Ledger Bool d.size}

/-- The vertices of a line are not free after it. -/
theorem FreeAfter.markUsed (h : d.FreeAfter used earlier) (line : List (Fin d.size)) :
    d.FreeAfter (markUsed used line) (line.map d.nodeAt :: earlier) := by
  intro v
  rw [getElem_markUsed, h v, List.forall_mem_cons, List.mem_map_of_injective nodeAt_injective]
  exact and_comm

/-- Clearing keeps the edges between vertices that stay free. -/
theorem KeepsFree.clearUsed {n : Nat} {t s : Ledger (List (Fin n)) n} {used : Ledger Bool n}
    (h : KeepsFree t s used) (line : List (Fin n)) :
    KeepsFree (clearUsed t (markUsed used line)) s (markUsed used line) := by
  intro v w hv hw
  rw [mem_clearUsed, and_iff_right ⟨hv, hw⟩]
  exact h v w ((getElem_markUsed ..).1 hv).1 ((getElem_markUsed ..).1 hw).1

/-- A route past the vertices of some lines is a line that avoids them. -/
theorem avoids_of_route (hfree : d.FreeAfter used earlier) {p : List (Fin d.size)}
    (h : Route (lookup d.table) used p) : Avoids earlier (p.map d.nodeAt) := by
  intro line hline m hm hm'
  obtain ⟨v, hv, rfl⟩ := List.mem_map.1 hm
  exact (hfree v).1 (h.free v hv) line hline hm'

/-- A line that avoids some lines is a route past their vertices. -/
theorem exists_route (hfree : d.FreeAfter used earlier) (h : d.IsLine path)
    (havoids : Avoids earlier path) :
    ∃ p, p.map d.nodeAt = path ∧ Route (lookup d.table) used p := by
  have hrange : path ∈ Set.range (List.map d.nodeAt) := by
    rw [Set.range_list_map]
    exact fun m hm => mem_range_nodeAt.2 (h.mem m hm)
  obtain ⟨p, rfl⟩ := hrange
  refine ⟨p, rfl, h.nodup.of_map, fun v hv => ?_, ?_⟩
  · exact (hfree v).2 fun line hline => havoids line hline (List.mem_map_of_mem hv)
  · refine ((List.isChain_map _).1 h.chain).imp fun i j hij => ?_
    exact mem_lookup_table.2 (joined_undirected.2 hij)

/-! ## The search -/

/-- The lines of a device are taken in order, and a length is left out only when there is no line
for it. -/
theorem greedy_linesFrom (lengths : List Nat) (hkeeps : KeepsFree t d.table used)
    (hfree : d.FreeAfter used earlier) :
    d.Greedy earlier lengths ((linesFrom lengths t used).map (List.map d.nodeAt)) := by
  induction lengths generalizing t used earlier with
  | nil => exact .done earlier
  | cons length lengths ih =>
    rcases linesFrom_cons length lengths t used with ⟨heq, hnone⟩ | ⟨line, hline, rfl, heq⟩
    · rw [heq]
      refine .skip (fun path hpath havoids => ?_) (ih hkeeps hfree)
      obtain ⟨p, rfl, hp⟩ := exists_route hfree hpath havoids
      rw [List.length_map]
      exact hnone p (hkeeps.route_iff.2 hp)
    · rw [heq, List.map_cons, ← List.length_map d.nodeAt]
      have hroute := hkeeps.route_iff.1 hline
      refine .take (isLine_of_route hroute) (avoids_of_route hfree hroute) ?_
      exact ih (hkeeps.clearUsed line) (hfree.markUsed line)

/-! ## Lengths that are not left out -/

/-- As many nodes are free as lines leave over. -/
theorem exists_free {k : Nat} (h : earlier.flatten.length + k ≤ d.size) :
    ∃ ns : List Node, ns.Nodup ∧ (∀ n ∈ ns, n ∈ d.nodes) ∧ Avoids earlier ns ∧ ns.length = k := by
  let free := d.nodes.filter fun n => n ∉ earlier.flatten
  have hfree {n : Node} (hn : n ∈ free.take k) : n ∈ d.nodes ∧ n ∉ earlier.flatten := by
    simpa only [free, List.mem_filter, decide_eq_true_eq] using List.mem_of_mem_take hn
  have hall : d.size ≤ earlier.flatten.length + free.length := by
    rw [← List.length_append, ← d.length_nodes]
    refine (d.nodes_nodup.subperm fun n hn => ?_).length_le
    by_cases hmem : n ∈ earlier.flatten
    · exact List.mem_append_left _ hmem
    · exact List.mem_append_right _ (List.mem_filter.2 ⟨hn, decide_eq_true hmem⟩)
  refine ⟨free.take k, ?_, fun n hn => (hfree hn).1, fun line hline n hn hn' => ?_, ?_⟩
  · exact d.nodes_nodup.sublist ((List.take_sublist ..).trans List.filter_sublist)
  · exact (hfree hn).2 (List.mem_flatten.2 ⟨line, hline, hn'⟩)
  · exact List.length_take_of_le (by omega)

/-- A length is not left out if all choices of so many nodes are lines and the device has room for
all lengths. -/
theorem Greedy.count_length_of_isLine (h : d.Greedy earlier lengths lines)
    (hroom : earlier.flatten.length + lengths.sum ≤ d.size) {k : Nat}
    (hline : ∀ ns : List Node, ns.Nodup → (∀ n ∈ ns, n ∈ d.nodes) → ns.length = k → d.IsLine ns) :
    (lines.map List.length).count k = lengths.count k := by
  induction h with
  | done earlier => rfl
  | @take earlier lines line lengths hline havoids hgreedy ih =>
    rw [List.map_cons, List.count_cons, List.count_cons, ih ?_]
    rw [List.flatten_cons, List.length_append]
    rw [List.sum_cons] at hroom
    omega
  | @skip earlier lines length lengths hnone hgreedy ih =>
    rw [List.sum_cons] at hroom
    rw [ih (by omega), List.count_cons_of_ne]
    rintro rfl
    -- So many nodes are free, and they are a line.
    obtain ⟨ns, hnodup, hmem, havoids, hlength⟩ := exists_free
      (by omega : earlier.flatten.length + length ≤ d.size)
    exact hnone ns (hline ns hnodup hmem hlength) havoids hlength

theorem isLine_of_length_le {ns : List Node} (hnodup : ns.Nodup) (hmem : ∀ n ∈ ns, n ∈ d.nodes)
    (h : ns.length ≤ 1) : d.IsLine ns := by
  refine ⟨hnodup, hmem, ?_⟩
  match ns, h with
  | [], _ => exact .nil
  | [n], _ => exact .singleton n

/-- No line of one node or of none is left out if the device has room for all lengths. -/
theorem Greedy.count_length (h : d.Greedy earlier lengths lines)
    (hroom : earlier.flatten.length + lengths.sum ≤ d.size) {k : Nat} (hk : k ≤ 1) :
    (lines.map List.length).count k = lengths.count k :=
  h.count_length_of_isLine hroom fun _ hnodup hmem hlength =>
    isLine_of_length_le hnodup hmem (hlength.trans_le hk)

/-- The lengths of a request that the device has room for are served from the longest to the
shortest. A length is left out only if no simple path of so many nodes avoids the lines taken before
it, and otherwise such a path is taken. No length of one or of none is left out. -/
theorem lines_exhaustive (d : Device) (lengths : List Nat) (h : lengths.sum ≤ d.size) :
    ∃ order lines, order.Perm lengths ∧ order.Pairwise (· ≥ ·) ∧ d.lines lengths = .ok lines ∧
      d.Greedy [] order lines ∧
      ∀ k ≤ 1, (lines.map List.length).count k = lengths.count k := by
  have hgreedy := greedy_linesFrom (t := d.table) (descending lengths) (fun _ _ _ _ => Iff.rfl)
    d.freeAfter_nil
  refine ⟨_, _, descending_perm lengths, pairwise_descending lengths,
    (d.lines_eq lengths).trans (if_neg (Nat.not_lt.2 h)), hgreedy, fun k hk => ?_⟩
  rw [hgreedy.count_length _ hk, (descending_perm lengths).count_eq]
  rw [List.flatten_nil, List.length_nil, Nat.zero_add, (descending_perm lengths).sum_eq]
  exact h

/-- Three nodes around a hub, and two apart. A line of three nodes takes the hub, so that there is
none of two. -/
def hub : Device :=
  let spoke (i : UInt32) : Connection := ⟨.ofIndex 0, .ofIndex i, defaultWeight⟩
  ofFitting ((List.range 6).map fun i => .ofIndex (UInt32.ofNat i)) [spoke 1, spoke 2, spoke 3]
    (by decide)

theorem lines_exhaustive_hub : [1, 3, 2].sum ≤ hub.size ∧
    ∃ order lines, order.Perm [1, 3, 2] ∧ order.Pairwise (· ≥ ·) ∧
      hub.lines [1, 3, 2] = .ok lines ∧ hub.Greedy [] order lines ∧
      ∀ k ≤ 1, (lines.map List.length).count k = [1, 3, 2].count k :=
  ⟨by decide, lines_exhaustive hub [1, 3, 2] (by decide)⟩

end CouplingMap.Device
