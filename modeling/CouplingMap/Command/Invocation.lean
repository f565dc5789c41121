import CouplingMap.Config.Load
import CouplingMap.Text.Pieces

/-!
# Command lines

* `Request`: what a command is asked to do.
* `Invocation`: a request with the options that go with every command.
* `Invocation.ofArguments?`: reads the arguments. Options may stand anywhere; those for every
  command may also stand before the name of the command.
-/

namespace CouplingMap

/-- What a command is asked to do. -/
inductive Request where
  /-- Write the device of a topology. -/
  | generate (topology : String) (output : Option String)
  /-- Summarise a device. -/
  | info (input : String)
  /-- Find the distance and a shortest path between two nodes. -/
  | distance (input source target : String)
  /-- Find disjoint lines of some lengths. -/
  | lines (input : String) (lengths : List Nat)
  /-- List the articulation points, of the device or of a part of it. -/
  | cuts (input : String) (part : Option String)
  /-- Take away the worst nodes. -/
  | prune (input : String) (num : Nat) (output : Option String)
  /-- Print the connectivity matrix. -/
  | matrix (input : String)
deriving DecidableEq

/-- A request with the options that go with every command. -/
structure Invocation where
  verbosity : Nat
  configFile : Option String
  format : Option String
  request : Request
deriving DecidableEq

namespace Invocation

/-! ## Options -/

/-- The options that take a value. -/
inductive Setting where
  | config
  | format
  | input
  | output
  | part
  | num
deriving DecidableEq

/-- The long name of an option. -/
def Setting.long : Setting → String
  | config => "config"
  | format => "format"
  | input => "input"
  | output => "output"
  | part => "sub"
  | num => "num"

/-- The letter of an option, if it has one. -/
def Setting.letter? : Setting → Option Char
  | input => some 'i'
  | output => some 'o'
  | num => some 'n'
  | _ => none

/-- The options that go with every command. -/
def everywhere : List Setting := [.config, .format]

/-- The commands. -/
inductive Verb where
  | generate
  | info
  | distance
  | lines
  | cuts
  | prune
  | matrix
deriving DecidableEq

/-- The name of a command. -/
def Verb.name : Verb → String
  | generate => "generate"
  | info => "info"
  | distance => "distance"
  | lines => "lines"
  | cuts => "aps"
  | prune => "prune"
  | matrix => "matrix"

/-- All commands. -/
def Verb.all : List Verb := [generate, info, distance, lines, cuts, prune, matrix]

/-- The options of a command. -/
def Verb.options : Verb → List Setting
  | generate => .output :: everywhere
  | cuts => .input :: .part :: everywhere
  | prune => .input :: .num :: .output :: everywhere
  | _ => .input :: everywhere

/-! ## Reading -/

/-- The options and operands read so far. -/
structure Given where
  verbosity : Nat
  options : List (Setting × String)
  /-- The operands, the last one first. -/
  operands : List String

/-- Nothing has been read. -/
def Given.start : Given := ⟨0, [], []⟩

/-- Records an option; it must not have been given before. -/
def Given.record (g : Given) (o : Setting) (value : String) : Option Given :=
  if (g.options.lookup o).isSome then none else some { g with options := (o, value) :: g.options }

/-- Whether an argument can be the value of the option before it. -/
def isValue (s : String) : Bool := s = "-" || s.toList.head? ≠ some '-'

/-- What an argument with options asks for: more options read, or an option whose value is the next
argument. -/
inductive Reading where
  | done (given : Given)
  | awaits (given : Given) (o : Setting)

/-- Reads the letters of an argument with one hyphen. What follows a letter that takes a value is
the value, after an optional equals sign. -/
def readLetters (allowed : List Setting) (g : Given) : List Char → Option Reading
  | [] => some (.done g)
  | c :: cs =>
    if c = 'v' then readLetters allowed { g with verbosity := g.verbosity + 1 } cs
    else
      match allowed.find? fun o => o.letter? = some c with
      | none => none
      | some o =>
        match cs with
        | [] => some (.awaits g o)
        | '=' :: value => (g.record o (String.ofList value)).map .done
        | _ => (g.record o (String.ofList cs)).map .done

/-- Reads an argument with two hyphens. -/
def readLong (allowed : List Setting) (g : Given) (cs : List Char) : Option Reading :=
  let named (name : List Char) : Option Setting :=
    allowed.find? fun o => o.long = String.ofList name
  match Text.cut? '=' cs with
  | some (name, value) => do
    let o ← named name
    (g.record o (String.ofList value)).map .done
  | none =>
    if String.ofList cs = "verbose" then
      some (.done { g with verbosity := g.verbosity + 1 })
    else (named cs).map (.awaits g)

/-- Reads an argument that starts with a hyphen; `none` if it is an operand. -/
def readOptions (allowed : List Setting) (g : Given) (s : String) : Option (Option Reading) :=
  match s.toList with
  | '-' :: '-' :: cs => some (readLong allowed g cs)
  | '-' :: c :: cs => some (readLetters allowed g (c :: cs))
  | _ => none

/-- Reads the arguments after the name of a command. -/
def readAll (allowed : List Setting) : Given → List String → Option Given
  | g, [] => some g
  | g, s :: rest =>
    if s = "--" then some { g with operands := rest.reverse ++ g.operands }
    else
      match readOptions allowed g s with
      | none => readAll allowed { g with operands := s :: g.operands } rest
      | some none => none
      | some (some (.done g)) => readAll allowed g rest
      | some (some (.awaits g o)) =>
        match rest with
        | [] => none
        | value :: rest =>
          if isValue value then (g.record o value).bind fun g => readAll allowed g rest else none

/-- Reads the arguments up to the name of a command; answers the command and what follows. -/
def readLeading : Given → List String → Option (Given × Verb × List String)
  | _, [] => none
  | g, s :: rest =>
    if s = "--" then none
    else
      match readOptions everywhere g s with
      | none => (Verb.all.find? fun v => v.name = s).map fun v => (g, v, rest)
      | some none => none
      | some (some (.done g)) => readLeading g rest
      | some (some (.awaits g o)) =>
        match rest with
        | [] => none
        | value :: rest =>
          if isValue value then (g.record o value).bind fun g => readLeading g rest else none

/-- A number of 64 bits. -/
def number? (s : String) : Option Nat := Text.bounded? UInt64.size s.toList

/-- The request of a command with its options and its operands in order. -/
def request? (v : Verb) (get : Setting → Option String) (operands : List String) :
    Option Request :=
  match v, operands with
  | .generate, [topology] => some (.generate topology (get .output))
  | .info, [] => (get .input).map .info
  | .distance, [a, b] => (get .input).map fun input => .distance input a b
  | .lines, operand :: operands => do
    let input ← get .input
    let lengths ← (operand :: operands).mapM number?
    some (.lines input lengths)
  | .cuts, [] => (get .input).map fun input => .cuts input (get .part)
  | .prune, [] => do
    let input ← get .input
    let num ← (get .num).bind number?
    some (.prune input num (get .output))
  | .matrix, [] => (get .input).map .matrix
  | _, _ => none

/-- Reads the arguments; `none` if they are not accepted. An option after the name of the command
counts more than one before it, and both count more than the variable for the settings file. -/
def ofArguments? (env : Config.Environment) (args : List String) : Option Invocation := do
  let (leading, v, rest) ← readLeading .start args
  let given ← readAll v.options .start rest
  let get (o : Setting) : Option String := (given.options.lookup o).or (leading.options.lookup o)
  let request ← request? v get given.operands.reverse
  some
    { verbosity := if given.verbosity = 0 then leading.verbosity else given.verbosity
      configFile := (get .config).or (env Config.fileVariable)
      format := get .format
      request }

end Invocation

end CouplingMap
