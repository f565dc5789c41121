import CouplingMap.Device.Cut
import CouplingMap.Device.Distance

/-!
# Pruning

Pruning takes nodes away one at a time. The worst node goes first: among the nodes of least degree
that are no articulation points, the one whose fingerprint is greatest. Ties are broken by the
fingerprints on the device before pruning, where an unknown node never wins.

* `compareFingerprints`: item by item up to the end of the shorter one; unreachable is farthest.
* `Device.worstNode?`: the node to go next.
* `Device.prune`: takes away up to a number of nodes.
-/

namespace CouplingMap

/-- How a candidate compares with the worst node so far. -/
inductive Standing where
  /-- The candidate is farther from the rest of the device. -/
  | worse
  /-- The candidate is closer to the rest of the device. -/
  | better
  /-- The fingerprints agree. -/
  | tied
deriving DecidableEq

/-- A hop count as a number: unreachable counts as the largest 64-bit number. -/
def hopKey (hops : Option Nat) : Nat := hops.getD (UInt64.size - 1)

/-- Compares fingerprints item by item. -/
def compareFingerprints : List (Option Nat) → List (Option Nat) → Standing
  | c :: cs, w :: ws =>
    if hopKey w < hopKey c then .worse
    else if hopKey c < hopKey w then .better
    else compareFingerprints cs ws
  | _, _ => .tied

namespace Device

/-- The keys of a fingerprint. -/
def fingerprintKeys (f : List (Option Nat)) : List Nat := f.map hopKey

/-- Whether both nodes are on the device and the first one has the greater fingerprint. -/
def farther (d : Device) (t : d.Table) (candidate worst : Node) : Bool :=
  match d.place? candidate, d.place? worst with
  | some i, some j =>
    fingerprintKeys (fingerprintAt t j) < fingerprintKeys (fingerprintAt t i)
  | _, _ => false

/-- A node with its fingerprint. -/
structure Candidate where
  node : Node
  fingerprint : List (Option Nat)

/-- The worse of two nodes; the first one keeps its place in a tie that `tieBreak` does not
decide for the second. -/
def worseOf (tieBreak : Node → Node → Bool) (worst candidate : Candidate) : Candidate :=
  match compareFingerprints candidate.fingerprint worst.fingerprint with
  | .worse => candidate
  | .better => worst
  | .tied => if tieBreak candidate.node worst.node then candidate else worst

/-- The nodes that may go next, in ascending order. -/
def candidateNodes (d : Device) (t : d.Table) : List Node :=
  let cuts := d.cutNodes t
  d.minDegreeNodes.filter fun n => n ∉ cuts

/-- The candidates with their fingerprints. -/
def candidates (d : Device) (t : d.Table) : List Candidate :=
  (d.candidateNodes t).filterMap fun n => (d.place? n).map fun i => ⟨n, fingerprintAt t i⟩

/-- The worst of some candidates; the first one keeps its place in ties. -/
def worstOf? (tieBreak : Node → Node → Bool) : List Candidate → Option Node
  | [] => none
  | first :: rest => some (rest.foldl (worseOf tieBreak) first).node

/-- The node to be taken away next, with ties broken on the device `before` pruning. -/
def worstNode? (d before : Device) : Option Node :=
  worstOf? (before.farther before.table) (d.candidates d.table)

/-- Takes away up to a number of nodes, with ties broken by `tieBreak`; answers the nodes taken, in
order, and what is left. -/
def pruneFrom (tieBreak : Node → Node → Bool) : Nat → Device → List Node × Device
  | 0, d => ([], d)
  | num + 1, d =>
    match worstOf? tieBreak (d.candidates d.table) with
    | none => ([], d)
    | some n =>
      match d.removeNode n with
      | .error _ => ([], d)
      | .ok d =>
        let (taken, left) := pruneFrom tieBreak num d
        (n :: taken, left)

/-- Takes away up to a number of worst nodes: the nodes taken, in ascending order, and the device
that is left. -/
def prune (d : Device) (num : Nat) : List Node × Device :=
  let (taken, left) := pruneFrom (d.farther d.table) num d
  (Node.sorted taken, left)

end Device

end CouplingMap
