import CouplingMap.Device.Query
import CouplingMap.Graph.LongestPath

/-!
# Lines

A line is a simple path with a given number of nodes. A request asks for lines of several lengths
that share no node.

* `Device.lines`: takes the lengths in descending order. For each one a longest path is looked for
  among the nodes that are free, up to that length; a length for which there is none is skipped.
* `Device.clearUsed`: the edges of the nodes of a line are taken out of the graph.
-/

namespace CouplingMap.Device

open CouplingMap.Graph

/-- The lengths in descending order. -/
def descending (lengths : List Nat) : List Nat := lengths.mergeSort fun a b => b ≤ a

/-- Marks vertices as used. -/
def markUsed {n : Nat} (used : Ledger Bool n) (path : List (Fin n)) : Ledger Bool n :=
  path.foldl (fun u (v : Fin n) => u.set v true) used

/-- The neighbours of every vertex without the edges of used vertices. -/
def clearUsed {n : Nat} (t : Ledger (List (Fin n)) n) (used : Ledger Bool n) :
    Ledger (List (Fin n)) n :=
  Ledger.ofFn fun v => if used[v] then [] else t[v].filter fun w => !used[w]

/-- The lines for lengths in order, given the edges that are left and the vertices that are used
already. -/
def linesFrom {n : Nat} : List Nat → Ledger (List (Fin n)) n → Ledger Bool n → List (List (Fin n))
  | [], _, _ => []
  | length :: lengths, t, used =>
    let path := longestPath (lookup t) used length
    if path.length < length then linesFrom lengths t used
    else
      let line := path.take length
      let used := markUsed used line
      line :: linesFrom lengths (clearUsed t used) used

/-- Disjoint lines of the requested lengths, as many as the search finds. -/
def lines (d : Device) (lengths : List Nat) : Except DeviceError (List (List Node)) :=
  let required := lengths.foldl (fun k length => k + length) 0
  if d.size < required then .error (.insufficientNodes required d.size)
  else
    .ok ((linesFrom (descending lengths) d.table (.replicate d.size false)).map
      (List.map d.nodeAt))

end CouplingMap.Device
