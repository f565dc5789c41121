import CouplingMap.Config.Basic
import CouplingMap.Device.Description
import CouplingMap.Device.Line
import CouplingMap.Device.Prune
import CouplingMap.Topology.Identify

/-!
# Reports

A report is what a command prints, as a table or as JSON. The members of JSON reports are ordered
by name.

* `Report.info`, `Report.distance`, `Report.lines`, `Report.cuts`, `Report.prune`,
  `Report.matrix`: the reports of the commands.
* `Report.text`: the lines that are printed.
-/

namespace CouplingMap

/-- The two forms of a report. -/
structure Report where
  table : List String
  json : Json

namespace Report

/-- The printed text of a report: every line ends with a line break. -/
def text (r : Report) (o : Output) : String :=
  if o.isJson then r.json.write o.pretty ++ "\n"
  else String.join (r.table.map fun line => line ++ "\n")

theorem text_json {r : Report} {o : Output} (h : o.isJson = true) :
    r.text o = r.json.write o.pretty ++ "\n" := by simp [text, h]

/-- A number as text. -/
def count (n : Nat) : String := String.ofList (Text.digits n)

/-- A number as JSON. -/
def number (n : Nat) : Json := .number (.integer n)

theorem number_eq (n : Nat) : number n = .number (.integer n) := rfl

/-- A value as JSON, null if it is absent. -/
def orNull {α : Type} (toJson : α → Json) : Option α → Json
  | none => .null
  | some a => toJson a

@[simp] theorem orNull_some {α : Type} (toJson : α → Json) (a : α) :
    orNull toJson (some a) = toJson a := rfl

/-- Nodes as JSON. -/
def nodeList (ns : List Node) : Json := .list (ns.map Node.toJson)

theorem nodeList_eq (ns : List Node) : nodeList ns = .list (ns.map Node.toJson) := rfl

/-- Nodes as text. -/
def nodeText (ns : List Node) : String := ", ".intercalate (ns.map Node.display)

/-- A text with blanks in front, up to a width. -/
def alignRight (width : Nat) (s : String) : String :=
  String.ofList (List.replicate (width - s.length) ' ') ++ s

/-! ## Summary -/

/-- What the summary says about a device. -/
structure Summary where
  nodes : Nat
  connections : Nat
  edges : Nat
  leastDegree : Option Nat
  greatestDegree : Option Nat
  leastNodes : List Node
  diameter : Option Nat
  topology : Option Topology
  cuts : Nat

/-- The degree of the first node of a list. -/
def firstDegree (d : Device) (ns : List Node) : Option Nat :=
  ns.head?.bind fun n => (d.degree n).toOption

/-- The summary of a device. Devices without nodes or in several pieces have no diameter. -/
def summary (d : Device) : Summary :=
  let least := d.minDegreeNodes
  { nodes := d.size
    connections := d.connectionCount
    edges := d.undirected.edges.length
    leastDegree := firstDegree d least
    greatestDegree := firstDegree d d.maxDegreeNodes
    leastNodes := least
    diameter := d.diameter.toOption
    topology := Topology.identify d
    cuts := d.articulationPoints.length }

/-- The line on the degrees. -/
def degreeLines (s : Summary) : List String :=
  match s.leastDegree, s.greatestDegree with
  | some low, some high =>
    ["  Degree:       " ++ count low ++ ".." ++ count high,
      "  Min degree:   " ++ nodeText s.leastNodes]
  | _, _ => []

/-- The report on a device as a whole. -/
def info (input : String) (d : Device) : Report :=
  let s := summary d
  { table :=
      ["→ Device " ++ input, "  Nodes:        " ++ count s.nodes,
        "  Connections:  " ++ count s.connections ++ " (" ++ count s.edges ++ " undirected)"] ++
      degreeLines s ++
      ["  Diameter:     " ++ (s.diameter.elim "disconnected" count),
        "  Cut vertices: " ++ count s.cuts] ++
      (s.topology.elim [] fun t => ["  Topology:     " ++ t.display])
    json := .object
      [("articulation_points", number s.cuts),
        ("connected", .bool s.diameter.isSome),
        ("connections", number s.connections),
        ("diameter", orNull number s.diameter),
        ("max_degree", orNull number s.greatestDegree),
        ("min_degree", orNull number s.leastDegree),
        ("nodes", number s.nodes),
        ("topology", orNull (fun t : Topology => .string t.display) s.topology),
        ("undirected_edges", number s.edges)] }

/-! ## The other commands -/

/-- The report on the distance of two nodes and a shortest path. -/
def distance (a b : Node) (hops : Nat) (path : List Node) : Report where
  table :=
    ["→ " ++ a.display ++ " -> " ++ b.display ++ ": distance " ++ count hops,
      "  Path: " ++ nodeText path]
  json := .object
    [("distance", number hops), ("from", a.toJson), ("path", nodeList path), ("to", b.toJson)]

/-- A line with its index and its length. -/
def lineText (line : List Node) (i : Nat) : String :=
  "  " ++ alignRight 3 (count i) ++ " [" ++ count line.length ++ "]: " ++ nodeText line

/-- The report on the lines found for the requested lengths. -/
def lines (requested : List Nat) (found : List (List Node)) : Report where
  table :=
    ("✓ Found " ++ count found.length ++ " of " ++ count requested.length ++ " requested lines") ::
      found.mapIdx (fun i line => lineText line i) ++
      if found.length < requested.length then ["  ! some lengths could not be satisfied"] else []
  json := .object
    [("lines", .list (found.map nodeList)), ("requested", .list (requested.map number))]

/-- The report on articulation points; `scope` names the device or the part. -/
def cuts (scope : String) (ns : List Node) : Report where
  table :=
    if ns = [] then ["✓ No articulation points in " ++ scope]
    else ["→ " ++ count ns.length ++ " articulation points in " ++ scope, "  " ++ nodeText ns]
  json := .object [("articulation_points", nodeList ns)]

/-- The report on pruning. -/
def prune (requested before : Nat) (removed : List Node) (left : Device)
    (output : Option String) : Report where
  table :=
    ["✓ Removed " ++ count removed.length ++ " of " ++ count before ++ " nodes, " ++
      count left.size ++ " remain"] ++
    (if removed = [] then [] else ["  Removed: " ++ nodeText removed]) ++
    (if removed.length < requested then
      ["  ! stopped early: every remaining minimum-degree node is a cut vertex"] else []) ++
    output.elim [] fun path => ["  Output: " ++ path]
  json := .object
    [("remaining", number left.size), ("removed", nodeList removed),
      ("requested", number requested)]

/-- A row of the matrix. -/
def cells (row : List Bool) : String := String.ofList (row.map fun c => if c then '1' else '.')

/-- An index in the matrix report. -/
def indexText (i : Nat) : String := "  " ++ alignRight 4 (count i) ++ "  "

/-- The report on the connectivity matrix. -/
def matrix (d : Device) : Report :=
  let rows := d.matrix
  { table :=
      d.nodes.mapIdx (fun i n => indexText i ++ n.display) ++ [""] ++
      rows.mapIdx fun i row => indexText i ++ cells row
    json := .object
      [("matrix", .list (rows.map fun row => .list (row.map .bool))), ("nodes", nodeList d.nodes)] }

end Report

end CouplingMap
