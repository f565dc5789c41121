import CouplingMap.Text.Numeral
import CouplingMap.Text.Pieces

/-!
# Nodes

A node is a register name and one to three coordinates in that register.

* `Node.ofParts`: the rule for nodes that come from outside: the register has a name.
* `Node.display`: the text of a node, such as `gridNode[0, 1, 0]`.
* `Node.compare`: nodes are ordered by register, then by coordinates; a shorter list of
  coordinates comes before its extensions.
-/

namespace CouplingMap

/-- The coordinates of a node. -/
inductive Coordinates where
  | one (i : UInt32)
  | two (i j : UInt32)
  | three (i j k : UInt32)
deriving DecidableEq, Inhabited

/-- The coordinates in order. -/
def Coordinates.toList : Coordinates → List UInt32
  | .one i => [i]
  | .two i j => [i, j]
  | .three i j k => [i, j, k]

/-- Coordinates given as a list of one to three. -/
def Coordinates.ofList? : List UInt32 → Option Coordinates
  | [i] => some (.one i)
  | [i, j] => some (.two i j)
  | [i, j, k] => some (.three i j k)
  | _ => none

@[simp] theorem Coordinates.ofList?_toList (c : Coordinates) : ofList? c.toList = some c := by
  cases c <;> rfl

theorem Coordinates.ofList?_eq_some {is : List UInt32} {c : Coordinates}
    (h : ofList? is = some c) : c.toList = is := by
  unfold ofList? at h
  split at h <;> simp_all <;> subst h <;> rfl

/-- A node of a device. -/
structure Node where
  register : String
  coordinates : Coordinates
deriving DecidableEq, Inhabited

/-- Why a node is refused. -/
inductive NodeError where
  /-- The text is neither an index nor a register with coordinates. -/
  | unreadable (text : String)
  /-- The register has no name. -/
  | emptyRegister
  /-- The number of coordinates is not between one and three. -/
  | coordinateCount (register : String) (count : Nat)
deriving DecidableEq

/-- The wording of a node error. -/
def NodeError.message : NodeError → String
  | .unreadable text => "Invalid node: cannot parse '" ++ text ++ "'"
  | .emptyRegister => "Invalid node: empty register name"
  | .coordinateCount register count =>
    "Invalid node: " ++ register ++ " has " ++ String.ofList (Text.digits count) ++
      " coordinates, expected 1 to 3"

namespace Node

/-- The register of nodes that are given by an index alone. -/
def defaultRegister : String := "node"

/-- The node of the default register with an index. -/
def ofIndex (i : UInt32) : Node := ⟨defaultRegister, .one i⟩

/-- The node of a register and a list of coordinates. -/
def ofParts (register : String) (index : List UInt32) : Except NodeError Node :=
  if register = "" then .error .emptyRegister
  else match Coordinates.ofList? index with
    | some c => .ok ⟨register, c⟩
    | none => .error (.coordinateCount register index.length)

/-- The coordinates of a node as a list. -/
def index (n : Node) : List UInt32 := n.coordinates.toList

/-- A number that is different for most nodes of one register. -/
def key (n : Node) : Nat := n.index.foldl (fun k i => k * 65537 + i.toNat) 0

/-- The text of a node as characters. -/
def displayChars (n : Node) : List Char :=
  n.register.toList ++ '[' ::
    Text.join [',', ' '] (n.index.map fun i => Text.digits i.toNat) ++ [']']

/-- The text of a node. -/
def display (n : Node) : String := String.ofList n.displayChars

/-- Three-way comparison of nodes. -/
protected def compare (a b : Node) : Ordering :=
  (compare a.register b.register).then (compare a.index b.index)

instance : Ord Node := ⟨Node.compare⟩

/-- Whether a node does not come after another one. -/
def notAfter (a b : Node) : Bool := (compare a b).isLE

/-- The nodes of a list in ascending order. -/
def sorted (ns : List Node) : List Node := ns.mergeSort notAfter

/-- A node with a named register is made of its parts. -/
theorem ofParts_index {n : Node} (h : n.register ≠ "") : ofParts n.register n.index = .ok n := by
  simp [ofParts, h, index]

/-- `ofParts` gives exactly the nodes with a named register, and their parts are the given ones. -/
theorem ofParts_eq_ok_iff {r : String} {is : List UInt32} {n : Node} :
    ofParts r is = .ok n ↔ r ≠ "" ∧ n.register = r ∧ n.index = is := by
  constructor
  · intro h
    unfold ofParts at h
    split at h
    · contradiction
    · rename_i hr
      split at h
      · rename_i c hc
        injection h with h
        subst h
        exact ⟨hr, rfl, Coordinates.ofList?_eq_some hc⟩
      · contradiction
  · rintro ⟨hr, rfl, rfl⟩
    exact ofParts_index hr

end Node

end CouplingMap
