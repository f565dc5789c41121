import CouplingMap.Yaml.Cell

/-!
# Block scalars

A block scalar is a run of indented lines below a header. In a literal one the line ends stand for
themselves; in a folded one the end of a line becomes a blank unless the line or the next one starts
with a blank. The header may say what becomes of the line ends after the last line and how deep the
lines are indented; otherwise the first line with text shows the indentation.

* `blockScalar`: reads a block scalar after its first character.
-/

namespace CouplingMap.Yaml

/-- What becomes of the line ends after the last line. -/
inductive Chomping where
  /-- All are dropped. -/
  | strip
  /-- The first one is kept. -/
  | clip
  /-- All are kept. -/
  | keep
deriving DecidableEq

/-- What a header says: the chomping, and how much deeper the lines are indented than the block
around them. -/
structure BlockHeader where
  chomping : Chomping
  depth : Option Nat

/-- Reads a sign for the chomping, if there is one. -/
def chompingSign? : List Cell → Option (Chomping × List Cell)
  | [] => none
  | c :: cs =>
    if c.char = '+' then some (.keep, cs) else if c.char = '-' then some (.strip, cs) else none

/-- Reads a depth, if there is one. It must not be zero. -/
def blockDepth : Reader (Option Nat) := fun cs =>
  let c := firstChar cs
  if c = '0' then broken .zeroDepth cs
  else if c.isDigit then .ok (some (c.toNat - '0'.toNat), cs.tail)
  else .ok (none, cs)

/-- Reads a header. A depth and a sign may stand in either order. -/
def blockHeader : Reader BlockHeader := fun cs =>
  match chompingSign? cs with
  | some (chomping, cs) => do
    let (depth, cs) ← blockDepth cs
    .ok (⟨chomping, depth⟩, cs)
  | none => do
    let (depth, rest) ← blockDepth cs
    match depth, chompingSign? rest with
    | some depth, some (chomping, rest) => .ok (⟨chomping, depth⟩, rest)
    | _, _ => .ok (⟨.clip, depth⟩, rest)

/-- What stands between two lines with text: how deep the deepest of the lines passed over is
indented, and the ends of the empty ones in reverse order. -/
structure EmptyLines where
  deepest : Nat
  ends : List Char

/-- Passes over the blanks of the indentation, which is unknown if none is given, and over empty
lines. There must be no tab in the indentation. -/
def emptyLines (indent : Option Nat) : EmptyLines → Reader EmptyLines
  | found, [] => .ok (found, [])
  | found, c :: cs =>
    let inIndent := indent.all (c.column < ·)
    let found' := { found with deepest := Nat.max found.deepest c.column }
    if inIndent ∧ c.char = ' ' then emptyLines indent found cs
    else if inIndent ∧ c.char = '\t' then broken .blockTab (c :: cs)
    else if isBreak c.char then emptyLines indent { found' with ends := c.char :: found.ends } cs
    else .ok (found', c :: cs)

/-- The lines of a block scalar that have been read. -/
structure BlockLines where
  /-- The characters so far, in reverse order. -/
  done : List Char
  /-- The end of the last line with text, if there is one. -/
  lastEnd : List Char
  /-- Whether the last line with text starts with a blank. -/
  startsBlank : Bool
  /-- The ends of the empty lines after that, in order. -/
  empty : List Char

/-- The characters before the next line with text, in reverse order. -/
def BlockLines.joined (b : BlockLines) (folded nextStartsBlank : Bool) : List Char :=
  let between :=
    if folded ∧ b.lastEnd = ['\n'] ∧ !b.startsBlank ∧ !nextStartsBlank then
      if b.empty = [] then [' '] else []
    else b.lastEnd
  b.empty.reverse ++ between.reverse ++ b.done

/-- The text of a block scalar whose lines have all been read. -/
def BlockLines.text (b : BlockLines) (chomping : Chomping) : List Char :=
  b.done.reverse ++
    match chomping with
    | .strip => []
    | .clip => b.lastEnd
    | .keep => b.lastEnd ++ b.empty

/-- Reads the lines that are indented by `indent`. Every round takes a cell off the first argument,
which is at least as long as the text. -/
def blockLines (folded : Bool) (indent : Nat) : List Cell → BlockLines → Reader BlockLines
  | [], b, cs => .ok (b, cs)
  | _ :: _, b, [] => .ok (b, [])
  | _ :: bound, b, c :: cs =>
    if c.column = indent ∧ c.char ≠ endMark then do
      let blank := isGap c.char
      let (line, rest) := spanChars (fun d => !endsLine d) (c :: cs)
      let (lineEnd, rest) :=
        if isBreak (firstChar rest) then ([firstChar rest], rest.tail) else ([], rest)
      let (found, rest) ← emptyLines (some indent) ⟨0, []⟩ rest
      blockLines folded indent bound
        ⟨line.reverse ++ b.joined folded blank, lineEnd, blank, found.ends.reverse⟩ rest
    else .ok (b, c :: cs)

/-- Reads a block scalar after its first character, in a block that is indented by `outer`, if in
any. -/
def blockScalar (folded : Bool) (outer : Option Nat) : Reader (List Char) := fun cs => do
  let (header, cs) ← blockHeader cs
  let cs ← skipLine .blockRest cs
  let fixed := header.depth.map fun depth => outer.getD 0 + depth
  let (found, cs) ← emptyLines fixed ⟨0, []⟩ cs
  let least := Nat.max 1 ((outer.map (· + 1)).getD 0)
  let indent := fixed.getD (Nat.max found.deepest least)
  let (b, cs) ← blockLines folded indent cs ⟨[], [], false, found.ends.reverse⟩ cs
  .ok (b.text header.chomping, cs)

end CouplingMap.Yaml
