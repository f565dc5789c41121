import CouplingMap.Json.Decoder
import CouplingMap.Topology.Basic

/-!
# Topologies in JSON

A topology is an object with its `kind` and its sizes, or a list of the kind and the sizes in
order.

* `Topology.toJson`, `Topology.ofJson`: writing and reading it.
-/

namespace CouplingMap.Topology

open CouplingMap.Json

/-- The kind of a topology. -/
inductive Kind where
  | full
  | ring
  | grid
deriving DecidableEq

/-- The name of a kind. -/
def Kind.name : Kind → String
  | full => "fully_connected"
  | ring => "ring"
  | grid => "square_grid"

/-- The kinds in order. -/
def Kind.all : List Kind := [full, ring, grid]

/-- The names of the sizes, in order. -/
def Kind.sizeNames : Kind → List String
  | full => ["nodes"]
  | ring => ["nodes"]
  | grid => ["rows", "cols", "layers"]

/-- A kind in a message on a list that is too short. -/
def Kind.title : Kind → String
  | full => "struct variant Topology::FullyConnected with 1 element"
  | ring => "struct variant Topology::Ring with 1 element"
  | grid => "struct variant Topology::SquareGrid with 3 elements"

/-- A kind in a message on a list that is too long. -/
def Kind.countTitle : Kind → String
  | full => "1 element in sequence"
  | ring => "1 element in sequence"
  | grid => "3 elements in sequence"

/-- The topology of a kind with sizes in order; sizes that are missing are zero. -/
def Kind.withSizes : Kind → List UInt32 → Topology
  | .full, ns => .full (ns.getD 0 0)
  | .ring, ns => .ring (ns.getD 0 0)
  | .grid, ns => .grid (ns.getD 0 0) (ns.getD 1 0) (ns.getD 2 0)

/-- Reads a kind. -/
def Kind.ofJson : Json → Except Mismatch Kind
  | .string s =>
    match all.find? fun k => k.name == s with
    | some k => .ok k
    | none => .error (.unknownName s (all.map name))
  | v => .error (.wrongKind v "variant identifier")

/-- Reads a size if it is present among the members. -/
def presentSize (members : List (String × Json)) (name : String) :
    Except Mismatch (Option (String × UInt32)) :=
  match Json.lookup name members with
  | none => .ok none
  | some v => (Decoder.uint32.fromValue v).map fun n => some (name, n)

/-- Reads the sizes that are present among the members, in the order of their names. -/
def presentSizes (members : List (String × Json)) (names : List String) :
    Except Mismatch (List (String × UInt32)) :=
  (names.mergeSort fun a b => a ≤ b).filterMapM (presentSize members)

/-- Reads the sizes from the members of an object; all must be present. -/
def sizesOfMembers (members : List (String × Json)) (names : List String) :
    Except Mismatch (List UInt32) := do
  let present ← presentSizes members names
  names.mapM fun name =>
    match present.lookup name with
    | some n => .ok n
    | none => .error (.missingField name)

/-- Reads as many sizes from the items of a list as there are names; `done` counts those read. -/
def sizesOfItems (title : String) : Nat → List String → List Json → Except Mismatch (List UInt32)
  | _, [], _ => .ok []
  | done, _ :: _, [] => .error (.wrongLength done title)
  | done, _ :: names, v :: vs => do
    let n ← Decoder.uint32.fromValue v
    let ns ← sizesOfItems title (done + 1) names vs
    .ok (n :: ns)

/-- Reads a topology from a value. -/
def ofJson : Json → Except Mismatch Topology
  | .object members =>
    match Json.lookup "kind" members with
    | none => .error (.missingField "kind")
    | some v => do
      let kind ← Kind.ofJson v
      let sizes ← sizesOfMembers members kind.sizeNames
      .ok (kind.withSizes sizes)
  | .list [] => .error (.missingField "kind")
  | .list (v :: items) => do
    let kind ← Kind.ofJson v
    let sizes ← sizesOfItems kind.title 0 kind.sizeNames items
    if kind.sizeNames.length < items.length then
      .error (.wrongLength items.length kind.countTitle)
    else .ok (kind.withSizes sizes)
  | v => .error (.wrongKind v "internally tagged enum Topology")

/-- A size as a member. -/
def sizeMember (name : String) (n : UInt32) : String × Json :=
  (name, .number (.integer n.toNat))

/-- The JSON form of a topology. -/
def toJson : Topology → Json
  | full n => .object [("kind", .string Kind.full.name), sizeMember "nodes" n]
  | ring n => .object [("kind", .string Kind.ring.name), sizeMember "nodes" n]
  | grid r c l =>
    .object [("kind", .string Kind.grid.name), sizeMember "rows" r, sizeMember "cols" c,
      sizeMember "layers" l]

end CouplingMap.Topology
