import CouplingMap.Command.FileSystem
import CouplingMap.Command.Invocation
import CouplingMap.Command.Report
import CouplingMap.Node.Text
import CouplingMap.Topology.Text

/-!
# Running commands

A command reads files, and then either fails with a message or has a plan: what to print and at
most one file to write. Nothing is printed or written before everything has succeeded.

* `Command.plan`: the plan of an invocation.
* `Command.perform`: an invocation in a system of files, with exit code and output.
* `Command.run`: an invocation in a folder of texts, with the texts that are written.
-/

namespace CouplingMap.Command

open Config (Environment)

/-- What a successful command does. -/
structure Plan where
  /-- The file to write, with its text. -/
  save : Option (String × String)
  stdout : String
  /-- What the error stream tells. -/
  notices : List String

/-- Why a text or value does not describe a device, in words. -/
def descriptionMessage : DescriptionError → String
  | .text .ended => "Device description error: the text ends early"
  | .text .malformed => "Device description error: the text is not JSON"
  | .text _ => "Device description error: the text is not a device description"
  | .value e => "Device description error: " ++ e.message
  | .device e => e.message

/-- Loads a device from a file. -/
def loadDevice (files : Files) (path : String) : Except String Device :=
  match files path with
  | .error problem =>
    .error (if problem.isAbsence then "File not found: " ++ path
      else "Failed to read file: " ++ path ++ ": " ++ problem.reason)
  | .ok text =>
    (Device.ofText text).mapError fun e =>
      "Invalid device description: " ++ path ++ ": " ++ descriptionMessage e

/-- Reads a node that is given as an argument. -/
def readNode (s : String) : Except String Node :=
  (Node.parse s).mapError fun e =>
    "Invalid node '" ++ s ++ "'; expected e.g. 'gridNode[0, 1, 0]' or '3': " ++ e.message

/-- Reads a topology that is given as an argument. -/
def readTopology (s : String) : Except String Topology :=
  (Topology.parse s).mapError fun e =>
    "Expected full:N, ring:N, grid:RxC or grid:RxCxL: " ++ e.message

/-- A plan that only prints a report. -/
def printed (o : Output) (r : Report) : Plan := ⟨none, r.text o, []⟩

/-- The plan to write or print the device of a topology. -/
def generate (o : Output) (topology : String) (output : Option String) : Except String Plan := do
  let t ← readTopology topology
  let d ← t.build.mapError BuildError.message
  let text := d.toText o.pretty
  match output with
  | none => .ok ⟨none, text ++ "\n", []⟩
  | some path =>
    .ok ⟨some (path, text), "",
      ["✓ Wrote " ++ t.display ++ " (" ++ Report.count d.size ++ " nodes, " ++
        Report.count d.connectionCount ++ " connections) to " ++ path]⟩

/-- The plan to print the distance and a shortest path between two nodes. -/
def distance (files : Files) (o : Output) (input source target : String) : Except String Plan := do
  let d ← loadDevice files input
  let a ← readNode source
  let b ← readNode target
  let hops ← (d.distance a b).mapError DeviceError.message
  let path ← (d.shortestPath a b).mapError DeviceError.message
  .ok (printed o (.distance a b hops path))

/-- The plan to print disjoint lines; devices above the limit are refused. -/
def lines (files : Files) (c : Config) (input : String) (lengths : List Nat) :
    Except String Plan := do
  let d ← loadDevice files input
  if c.analysis.maxLineSearchNodes < d.size then
    .error ("Device has " ++ Report.count d.size ++ " nodes, line search is limited to " ++
      Report.count c.analysis.maxLineSearchNodes ++
      " (raise analysis.max_line_search_nodes to allow it)")
  else
    let found ← (d.lines lengths).mapError DeviceError.message
    .ok (printed c.output (.lines lengths found))

/-- The plan to print the articulation points of a device, or of a part of it. -/
def cuts (files : Files) (o : Output) (input : String) : Option String → Except String Plan
  | none => do
    let d ← loadDevice files input
    .ok (printed o (.cuts "device" d.articulationPoints))
  | some part => do
    let d ← loadDevice files input
    let s ← loadDevice files part
    let ns ← (d.articulationPointsOf s).mapError DeviceError.message
    .ok (printed o (.cuts "sub-device" ns))

/-- The plan to prune a device. -/
def prune (files : Files) (o : Output) (input : String) (num : Nat) (output : Option String) :
    Except String Plan := do
  let d ← loadDevice files input
  let (removed, left) := d.prune num
  let report := Report.prune num d.size removed left output
  .ok ⟨output.map fun path => (path, left.toText o.pretty), report.text o, []⟩

/-- The plan of a request under a configuration. -/
def execute (files : Files) (c : Config) : Request → Except String Plan
  | .generate topology output => generate c.output topology output
  | .info input => do .ok (printed c.output (.info input (← loadDevice files input)))
  | .distance input a b => distance files c.output input a b
  | .lines input lengths => lines files c input lengths
  | .cuts input part => cuts files c.output input part
  | .prune input num output => prune files c.output input num output
  | .matrix input => do .ok (printed c.output (.matrix (← loadDevice files input)))

/-- The text of the settings file, or what keeps it from being read. -/
def configText (files : Files) (path : String) : Except String String :=
  (files path).mapError fun problem => path ++ ": " ++ problem.reason

/-- The plan of an invocation. -/
def plan (files : Files) (env : Environment) (i : Invocation) : Except String Plan := do
  let c ← (Config.settle (i.configFile.map (configText files)) env i.format).mapError
    ConfigError.message
  execute files c i.request

/-! ## Running -/

/-- What a run leaves behind. -/
structure Ending where
  code : Nat
  stdout : String
  /-- The lines of the error stream. -/
  stderr : List String
  system : FileSystem

/-- The code of a run whose arguments are not accepted. -/
def usageCode : Nat := 2

/-- A line without the carriage return that may be part of its end. -/
def lineText (s : List Char) : String :=
  String.ofList (if s.getLast? = some '\r' then s.dropLast else s)

/-- The lines of a text. The end of the last line may be left out. -/
def textLines (s : String) : List String :=
  let lines := Text.pieces '\n' s.toList
  (if lines.getLast? = some [] then lines.dropLast else lines).map lineText

/-- A run that fails with a message. -/
def failure (message : String) (s : FileSystem) : Ending :=
  ⟨1, "", textLines ("Error: " ++ message ++ "\n"), s⟩

/-- Why a file cannot be written. -/
def writeProblem (path reason : String) : String :=
  "Failed to write file: " ++ path ++ ": " ++ reason

/-- A run that succeeds. -/
def success (stdout stderr : String) (s : FileSystem) : Ending := ⟨0, stdout, textLines stderr, s⟩

/-- Carries out a plan. The file is written before anything is printed. -/
def carryOut (s : FileSystem) (p : Plan) : Ending :=
  let notices := String.join (p.notices.map (· ++ "\n"))
  match p.save with
  | none => success p.stdout notices s
  | some (path, text) =>
    match s.target path with
    | .error problem => failure (writeProblem path problem.reason) s
    | .ok (.file slot) =>
      match FileSystem.save slot text.toUTF8 with
      | (some problem, s) => failure (writeProblem path problem.reason) s
      | (none, s) => success p.stdout notices s
    | .ok (.sink .output) => success (text ++ p.stdout) notices s
    | .ok (.sink .errors) => success p.stdout (text ++ notices) s
    | .ok (.sink .discard) => success p.stdout notices s

/-- Runs a command in a system. -/
def perform (args : List String) (env : Environment) (s : FileSystem) : Ending :=
  match Invocation.ofArguments? env args with
  | none => ⟨usageCode, "", [], s⟩
  | some i =>
    match plan s.read env i with
    | .error message => failure message s
    | .ok p => carryOut s p

/-! ## Running in a folder -/

/-- What a run in a folder of texts leaves behind. -/
structure Outcome where
  code : Nat
  stdout : String
  /-- The lines of the error stream. -/
  stderr : List String
  /-- The files created or changed, with their texts. -/
  written : List (String × String)
deriving DecidableEq

/-- Runs a command in a folder that has some texts, by name. -/
def run (args : List String) (files : List (String × String)) (env : Environment) : Outcome :=
  let s := FileSystem.ofFiles files
  let e := perform args env s
  ⟨e.code, e.stdout, e.stderr, s.changes e.system⟩

end CouplingMap.Command
