import CouplingMap.Proofs.Device.Line

/-!
# Lines along the node order

On some devices the search goes from every node to the next one in node order, if there is one. Then
lines are stretches of the node order, one after another.

* `Device.stretch`: consecutive positions.
* `Device.Unrolled`: a search that is past the first positions goes from each one to the next.
* `Device.Unrolled.longestPath_eq`, `Device.Unrolled.clearUsed`: it finds the next stretch, and is
  past it then.
* `Device.Unrolled.map_val_linesFrom`: the lines are stretches.
* `Device.Leads.map_linesFrom`: so are those of a device with such a search.
-/

namespace CouplingMap.Device

open CouplingMap.Graph

variable {n s length : Nat} {t : Ledger (List (Fin n)) n} {used : Ledger Bool n} {v w : Fin n}
  {lengths : List Nat}

/-! ## Stretches -/

/-- A number of consecutive positions. -/
def stretch (n s length : Nat) : List (Fin n) := ((List.finRange n).drop s).take length

theorem drop_take_range (h : s + length ≤ n) :
    ((List.range n).drop s).take length = List.range' s length := by
  obtain ⟨rest, rfl⟩ := Nat.exists_eq_add_of_le h
  have hrest : s + length + rest - s = length + rest := by omega
  rw [List.range_eq_range', List.drop_range', Nat.mul_one, Nat.zero_add, hrest,
    ← List.range'_append_1, List.take_left' List.length_range']

theorem map_val_stretch (h : s + length ≤ n) :
    (stretch n s length).map Fin.val = List.range' s length := by
  rw [stretch, List.map_take, List.map_drop]
  exact (congrArg (fun l => (l.drop s).take length) List.map_coe_finRange_eq_range).trans
    (drop_take_range h)

theorem length_stretch (h : s + length ≤ n) : (stretch n s length).length = length := by
  rw [← List.length_map Fin.val, map_val_stretch h, List.length_range']

theorem mem_stretch (h : s + length ≤ n) :
    v ∈ stretch n s length ↔ s ≤ v ∧ (v : Nat) < s + length := by
  rw [← List.mem_map_of_injective Fin.val_injective, map_val_stretch h, List.mem_range'_1]

theorem head?_stretch (h : s + length ≤ n) (hv : v ∈ (stretch n s length).head?) :
    (v : Nat) = s := by
  have hhead : (v : Nat) ∈ ((stretch n s length).map Fin.val).head? := by
    rw [List.head?_map]
    exact Option.mem_map_of_mem Fin.val hv
  rw [map_val_stretch h, List.head?_range', Option.mem_def, Option.ite_none_left_eq_some] at hhead
  exact (Option.some.inj hhead.2).symm

/-- Each position of a stretch is followed by the next one. -/
theorem isChain_stretch (h : s + length ≤ n) :
    (stretch n s length).IsChain fun v w : Fin n => (w : Nat) = v + 1 := by
  have hrange := List.isChain_range' s length 1
  rw [← map_val_stretch h] at hrange
  exact (List.isChain_map _).1 hrange

theorem nodup_stretch (n s length : Nat) : (stretch n s length).Nodup :=
  (List.nodup_finRange n).sublist ((List.take_sublist ..).trans (List.drop_sublist ..))

/-! ## The search -/

/-- The positions from one on are free. From each of them the search goes to the next one, if there
is one. -/
structure Unrolled (t : Ledger (List (Fin n)) n) (used : Ledger Bool n) (s : Nat) : Prop where
  free : ∀ v : Fin n, used[v] = false ↔ s ≤ v
  next : ∀ v w : Fin n, s ≤ v → (w : Nat) = v + 1 → (lookup t v).head? = some w

/-- A stretch is a route along the first neighbours. -/
theorem Unrolled.isChain_head? (h : Unrolled t used s) (hroom : s + length ≤ n) :
    (stretch n s length).IsChain fun v w => (lookup t v).head? = some w :=
  (isChain_stretch hroom).imp_of_mem_imp fun v w hv _ hw =>
    h.next v w ((mem_stretch hroom).1 hv).1 hw

/-- The path that is found is the next stretch. -/
theorem Unrolled.longestPath_eq (h : Unrolled t used s) (hroom : s + length ≤ n) :
    longestPath (lookup t) used length = stretch n s length := by
  have hroute : Route (lookup t) used (stretch n s length) := by
    refine ⟨nodup_stretch n s length, fun v hv => ?_, ?_⟩
    · exact (h.free v).2 ((mem_stretch hroom).1 hv).1
    · exact (h.isChain_head? hroom).imp fun v w hw => List.mem_of_mem_head? hw
  have hstart : ∀ v ∈ (stretch n s length).head?, ∀ w < v, used[w] = true := by
    intro v hv w hw
    rw [← Bool.not_eq_false, h.free, ← head?_stretch hroom hv]
    exact Nat.not_le.2 hw
  have hfound := longestPath_eq_of_first hroute hstart (h.isChain_head? hroom)
  rwa [length_stretch hroom] at hfound

/-- The search is past a stretch once its positions are used. -/
theorem Unrolled.clearUsed (h : Unrolled t used s) (hroom : s + length ≤ n) :
    Unrolled (clearUsed t (markUsed used (stretch n s length)))
      (markUsed used (stretch n s length)) (s + length) := by
  have hfree (v : Fin n) : (markUsed used (stretch n s length))[v] = false ↔ s + length ≤ v := by
    rw [getElem_markUsed, h.free, mem_stretch hroom]
    omega
  refine ⟨hfree, fun v w hv hw => ?_⟩
  -- The next position is free and comes first, so it still does when used ones are left out.
  obtain ⟨ws, hws⟩ := List.head?_eq_some_iff.1 (h.next v w (by omega) hw)
  have hws : t[v] = w :: ws := hws
  have hv : (markUsed used (stretch n s length))[v] = false := (hfree v).2 hv
  have hw : (markUsed used (stretch n s length))[w] = false := (hfree w).2 (by omega)
  simp [lookup, Device.clearUsed, hv, hw, hws]

/-- The lines are stretches, one after another. -/
theorem Unrolled.map_val_linesFrom (h : Unrolled t used s) (hroom : s + lengths.sum ≤ n) :
    (linesFrom lengths t used).map (List.map Fin.val) =
      lengths.mapIdx fun k length => List.range' (s + (lengths.take k).sum) length := by
  -- By induction on the lengths: the search is past one stretch more each time.
  induction lengths generalizing t used s with
  | nil => rfl
  | cons length lengths ih =>
    rw [List.sum_cons] at hroom
    have hlength : s + length ≤ n := by omega
    have hline := length_stretch hlength
    have hstep : linesFrom (length :: lengths) t used = stretch n s length ::
        linesFrom lengths (Device.clearUsed t (markUsed used (stretch n s length)))
          (markUsed used (stretch n s length)) := by
      rw [linesFrom, h.longestPath_eq hlength, if_neg (Nat.not_lt.2 hline.ge),
        List.take_of_length_le hline.le]
    rw [hstep, List.map_cons, map_val_stretch hlength, ih (h.clearUsed hlength) (by omega),
      List.mapIdx_cons]
    simp only [List.take_zero, List.sum_nil, Nat.add_zero, List.take_succ_cons, List.sum_cons,
      Nat.add_assoc]

/-! ## Devices -/

/-- From every position the search goes to the next one, if there is one. -/
def Leads (d : Device) : Prop :=
  ∀ i j : Fin d.size, (j : Nat) = i + 1 → (lookup d.table i).head? = some j

/-- On such a device nodes are taken in their order. -/
theorem Leads.map_linesFrom {d : Device} {name : Nat → Node} (h : d.Leads)
    (hname : ∀ i, d.nodeAt i = name i) (hroom : lengths.sum ≤ d.size) :
    (linesFrom lengths d.table (.replicate d.size false)).map (List.map d.nodeAt) =
      lengths.mapIdx fun k length => (List.range' (lengths.take k).sum length).map name := by
  have hunrolled : Unrolled d.table (.replicate d.size false) 0 :=
    ⟨by simp, fun v w _ hw => h v w hw⟩
  have hnodeAt : d.nodeAt = name ∘ Fin.val := funext hname
  rw [hnodeAt, ← List.map_comp_map, ← List.map_map, hunrolled.map_val_linesFrom (by omega),
    List.mapIdx_eq_zipIdx_map, List.mapIdx_eq_zipIdx_map, List.map_map]
  simp only [Nat.zero_add]
  rfl

end CouplingMap.Device
