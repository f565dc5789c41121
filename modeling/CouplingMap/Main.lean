import CouplingMap.Command.Run

/-!
# The command line program

* `main`: reads the files that the arguments name, runs the command and carries out its plan.
-/

namespace CouplingMap.Main

open Command

/-- The files that an invocation may read. -/
def paths (i : Invocation) : List String :=
  i.configFile.toList ++
    match i.request with
    | .generate .. => []
    | .info input => [input]
    | .distance input .. => [input]
    | .lines input _ => [input]
    | .cuts input part => input :: part.toList
    | .prune input .. => [input]
    | .matrix input => [input]

/-- What keeps a file operation from succeeding. -/
def problem (e : IO.Error) : FileProblem :=
  match e with
  | .noFileOrDirectory .. => .missing
  | .inappropriateType _ 20 _ => .notFolder
  | .inappropriateType _ 21 _ => .isFolder
  | e => .other (toString e)

/-- Reads a file. -/
def readPath (path : String) : IO (Except FileProblem String) := do
  try
    return FileSystem.decode (← IO.FS.readBinFile path)
  catch e =>
    return .error (problem e)

/-- Prints a failure. -/
def fail (message : String) : IO UInt32 := do
  IO.eprintln ("Error: " ++ message)
  return 1

/-- Carries out a plan. -/
def carryOut (p : Plan) : IO UInt32 := do
  try
    if let some (path, text) := p.save then IO.FS.writeFile path text
    IO.print p.stdout
    p.notices.forM fun line => IO.eprintln line
    return 0
  catch e =>
    fail (writeProblem ((p.save.map Prod.fst).getD "") (problem e).reason)

end CouplingMap.Main

open CouplingMap CouplingMap.Main in
/-- Runs the command that the arguments ask for. -/
def main (args : List String) : IO UInt32 := do
  let file ← IO.getEnv Config.fileVariable
  let names := ["LOG_LEVEL", "LOG_FORMAT", "OUTPUT_FORMAT", "OUTPUT_PRETTY",
    "MAX_LINE_SEARCH_NODES"]
  let values ← names.mapM fun name => IO.getEnv (Config.variableStem ++ name)
  let known := (Config.fileVariable, file) ::
    (names.map fun name => Config.variableStem ++ name).zip values
  let env : Config.Environment := fun name => (known.lookup name).join
  match Invocation.ofArguments? env args with
  | none =>
    IO.eprintln "error: the arguments are not accepted"
    return UInt32.ofNat Command.usageCode
  | some i =>
    let contents ← (paths i).mapM fun path => return (path, ← readPath path)
    let files : Files := fun path =>
      (contents.lookup path).getD (.error .missing)
    match Command.plan files env i with
    | .error message => fail message
    | .ok p => carryOut p
