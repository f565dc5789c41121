import CouplingMap.Node.Basic
import CouplingMap.Text.Blank

/-!
# Reading nodes from text

* `Node.parse`: reads `reg[i]`, `reg[i, j]`, `reg[i, j, k]` or an index alone. Blanks around the
  text, the register and the coordinates do not count.
-/

namespace CouplingMap.Node

open Text

/-- The text before a closing bracket at the end. -/
def beforeBracket? (s : List Char) : Option (List Char) :=
  if s.getLast? = some ']' then some s.dropLast else none

/-- The coordinates between the brackets: numerals with commas between them. -/
def coordinates? (s : List Char) : Option (List UInt32) :=
  (pieces ',' s).mapM fun p => uint32? (trim p)

/-- The register and the coordinates of a text with brackets. -/
def parts? (s : List Char) : Option (List Char × List UInt32) := do
  let (register, rest) ← cut? '[' s
  let inside ← beforeBracket? rest
  let index ← coordinates? inside
  some (trim register, index)

/-- Reads a node from characters. -/
def parseChars (s : List Char) : Except NodeError Node :=
  let s := trim s
  match uint32? s with
  | some i => .ok (ofIndex i)
  | none =>
    match parts? s with
    | some (register, index) => ofParts (String.ofList register) index
    | none => .error (.unreadable (String.ofList s))

/-- Reads a node. -/
def parse (s : String) : Except NodeError Node := parseChars s.toList

end CouplingMap.Node
