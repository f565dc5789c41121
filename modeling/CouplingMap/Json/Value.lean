import CouplingMap.Json.Numeral
import CouplingMap.Json.Quoted

/-!
# Reading and writing whole values

* `Json.read`: reads a text as a value of any kind. Lists and objects may be nested up to
  `deepest` levels.
* `Json.skip`: passes over a value without building it. Nesting has no limit, and numbers are not
  given a value, so none is too large.
* `Json.compact`, `Json.pretty`: the two layouts.
-/

namespace CouplingMap.Json

/-! ## Reading -/

/-- The levels of nesting that `read` accepts. -/
def deepest : Nat := 127

/-- Reads a value with at most the given levels of nesting. -/
def value : Nat → Reader Json
  | depth, cs =>
    match skipSpace cs with
    | [] => .error .ended
    | c :: rest =>
      if c = 'n' then (word nullTail rest).map fun r => (.null, r.2)
      else if c = 't' then (word trueTail rest).map fun r => (.bool true, r.2)
      else if c = 'f' then (word falseTail rest).map fun r => (.bool false, r.2)
      else if c = '"' then (Quoted.read rest).map fun r => (.string r.1, r.2)
      else if Numeral.starts c then (Numeral.read (c :: rest)).map fun r => (.number r.1, r.2)
      else
        match depth with
        | 0 => .error .malformed
        | depth + 1 =>
          if c = '[' then (items (value depth) rest).map fun r => (.list r.1, r.2)
          else if c = '{' then
            let member (done : List (String × Json)) (name : String) :
                Reader (List (String × Json)) := fun cs => do
              let ((), cs) ← colon cs
              let (v, cs) ← value depth cs
              .ok ((name, v) :: done, cs)
            (members Quoted.read member [] rest).map fun r => (.object r.1.reverse, r.2)
          else .error .malformed

/-- Reads a text as a value. -/
def read (text : String) : Except ReadError Json := (Reader.whole (value deepest)) text.toList

/-! ## Skipping -/

/-- The two kinds of containers. -/
inductive Container where
  | list
  | object
deriving DecidableEq

/-- The closing bracket of a container. -/
def Container.close : Container → Char
  | .list => ']'
  | .object => '}'

/-- Passes over a value that is not a list or object, or over an opening bracket, which is
answered. -/
def skipToken : Reader (Option Container) := fun cs =>
  match skipSpace cs with
  | [] => .error .ended
  | c :: rest =>
    if c = 'n' then (word nullTail rest).map fun r => (none, r.2)
    else if c = 't' then (word trueTail rest).map fun r => (none, r.2)
    else if c = 'f' then (word falseTail rest).map fun r => (none, r.2)
    else if c = '"' then (Quoted.skip rest).map fun r => (none, r.2)
    else if Numeral.starts c then
      (Numeral.scan .malformed (c :: rest)).map fun r => (none, r.2)
    else if c = '[' then .ok (some .list, rest)
    else if c = '{' then .ok (some .object, rest)
    else .error .malformed

/-- Passes over the name of a member and its colon. -/
def skipName : Reader Unit := fun cs =>
  match skipSpace cs with
  | [] => .error .ended
  | c :: rest =>
    if c = '"' then do
      let ((), rest) ← Quoted.skip rest
      colon rest
    else .error .malformed

/-- Passes over an item or member of a container, up to the end of its value or the first opening
bracket in it. -/
def skipItem : Container → Reader (Option Container)
  | .list, cs => skipToken cs
  | .object, cs => do
    let ((), cs) ← skipName cs
    skipToken cs

/-- Passes over the rest of the open containers, which are given innermost first. `fresh` tells
that nothing of the innermost one has been read. Every round takes a character off the first
argument, which is at least as long as the text. -/
def skipFrom : List Char → Bool → List Container → Reader Unit
  | _, _, [], cs => .ok ((), cs)
  | [], _, _ :: _, _ => .error .ended
  | _ :: bound, fresh, k :: opened, cs =>
    match skipSpace cs with
    | [] => .error .ended
    | c :: rest =>
      if c = k.close then skipFrom bound false opened rest
      else if fresh || c = ',' then do
        match ← skipItem k (if fresh then c :: rest else rest) with
        | (none, cs) => skipFrom bound false (k :: opened) cs
        | (some inner, cs) => skipFrom bound true (inner :: k :: opened) cs
      else .error .malformed

/-- Passes over a value. -/
def skip : Reader Unit := fun cs => do
  match ← skipToken cs with
  | (none, rest) => .ok ((), rest)
  | (some k, rest) => skipFrom rest true [k] rest

/-! ## Writing -/

mutual

/-- The layout without blanks. -/
def compactChars : Json → List Char
  | .null => 'n' :: nullTail
  | .bool true => 't' :: trueTail
  | .bool false => 'f' :: falseTail
  | .number n => n.write
  | .string s => Quoted.write s
  | .list xs => '[' :: compactItems true xs ++ [']']
  | .object ms => '{' :: compactMembers true ms ++ ['}']

/-- The items of a list, a comma before each but the first. -/
def compactItems : Bool → List Json → List Char
  | _, [] => []
  | first, x :: xs => (if first then [] else [',']) ++ compactChars x ++ compactItems false xs

/-- The members of an object, a comma before each but the first. -/
def compactMembers : Bool → List (String × Json) → List Char
  | _, [] => []
  | first, (k, v) :: ms =>
    (if first then [] else [',']) ++ Quoted.write k ++ ':' :: compactChars v ++
      compactMembers false ms

end

/-- A new line, indented by two blanks for each level. -/
def newLine (level : Nat) : List Char := '\n' :: List.replicate (2 * level) ' '

mutual

/-- The layout with one item or member on a line. -/
def prettyChars : Nat → Json → List Char
  | _, .null => 'n' :: nullTail
  | _, .bool true => 't' :: trueTail
  | _, .bool false => 'f' :: falseTail
  | _, .number n => n.write
  | _, .string s => Quoted.write s
  | _, .list [] => ['[', ']']
  | level, .list (x :: xs) =>
    '[' :: prettyItems (level + 1) true (x :: xs) ++ newLine level ++ [']']
  | _, .object [] => ['{', '}']
  | level, .object (m :: ms) =>
    '{' :: prettyMembers (level + 1) true (m :: ms) ++ newLine level ++ ['}']

/-- The items of a list, each on a line of its own. -/
def prettyItems : Nat → Bool → List Json → List Char
  | _, _, [] => []
  | level, first, x :: xs =>
    (if first then [] else [',']) ++ newLine level ++ prettyChars level x ++
      prettyItems level false xs

/-- The members of an object, each on a line of its own. -/
def prettyMembers : Nat → Bool → List (String × Json) → List Char
  | _, _, [] => []
  | level, first, (k, v) :: ms =>
    (if first then [] else [',']) ++ newLine level ++ Quoted.write k ++ ':' :: ' ' ::
      prettyChars level v ++ prettyMembers level false ms

end

/-- The text of a value without blanks. -/
def compact (v : Json) : String := String.ofList (compactChars v)

/-- The text of a value over several lines. -/
def pretty (v : Json) : String := String.ofList (prettyChars 0 v)

/-- The text of a value in one of the two layouts. -/
def write (lines : Bool) (v : Json) : String := if lines then v.pretty else v.compact

end CouplingMap.Json
