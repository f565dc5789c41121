import CouplingMap.Text.Blank
import CouplingMap.Text.Lower
import CouplingMap.Topology.Basic

/-!
# Reading topologies from text

* `Topology.parse`: reads a kind, a colon, and sizes with `x` between them. Blanks around the text
  and around each size do not count, nor does the case of the letters of the kind.
-/

namespace CouplingMap.Topology

open CouplingMap.Text

/-- The sizes of a text: numerals with `x` between them. -/
def sizes? (s : List Char) : Option (List UInt32) := (pieces 'x' s).mapM fun p => uint32? (trim p)

/-- The topology of a kind in lower case and a list of sizes. -/
def ofKind? (kind : String) (sizes : List UInt32) : Option Topology :=
  if kind = "full" ∨ kind = "fc" ∨ kind = "fully_connected" then
    match sizes with
    | [n] => some (full n)
    | _ => none
  else if kind = "ring" then
    match sizes with
    | [n] => some (ring n)
    | _ => none
  else if kind = "grid" then
    match sizes with
    | [r, c] => some (grid r c 1)
    | [r, c, l] => some (grid r c l)
    | _ => none
  else none

/-- Reads a topology from characters. -/
def parseChars? (s : List Char) : Option Topology := do
  let (kind, params) ← cut? ':' (trim s)
  let sizes ← sizes? params
  ofKind? (String.ofList (lower kind)) sizes

/-- Reads a topology. -/
def parse (s : String) : Except TopologyError Topology :=
  match parseChars? s.toList with
  | some t => .ok t
  | none => .error (.unreadable s)

end CouplingMap.Topology
