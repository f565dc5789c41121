import CouplingMap.Text.Numeral
import CouplingMap.Yaml.Gap

/-!
# Quoted scalars

In single quotes a quote is written twice. In double quotes a backslash starts an escape: of one
letter, of a code point, or of a line end, which then is no part of the text. Other line ends are
folded.

* `quoted`: reads a quoted scalar after its opening quote.
-/

namespace CouplingMap.Yaml

/-- The escapes of one letter, with the character each stands for. -/
def letterEscapes : List (Char × Char) :=
  [('0', '\x00'), ('a', '\x07'), ('b', '\x08'), ('t', '\t'), ('\t', '\t'), ('n', '\n'),
   ('v', '\x0b'), ('f', '\x0c'), ('r', '\r'), ('e', '\x1b'), (' ', ' '), ('"', '"'), ('/', '/'),
   ('\\', '\\'), ('N', '\u0085'), ('_', '\u00a0'), ('L', '\u2028'), ('P', '\u2029')]

/-- The escapes of a code point, with the number of hexadecimal digits each takes. -/
def codeEscapes : List (Char × Nat) := [('x', 2), ('u', 4), ('U', 8)]

/-- The number that so many hexadecimal digits at the start of cells stand for, given the value of
those before. -/
def hexDigits? : Nat → Nat → List Cell → Option Nat
  | value, 0, _ => some value
  | _, _ + 1, [] => none
  | value, count + 1, c :: cs => do hexDigits? (value * 16 + (← Text.hexValue? c.char)) count cs

/-- Reads a code point of so many hexadecimal digits. -/
def codePoint (count : Nat) : Reader Char := fun cs =>
  match hexDigits? 0 count cs with
  | none => broken .escapeDigits cs
  | some n => if n.isValidChar then .ok (Char.ofNat n, cs.drop count) else broken .escapeCode cs

/-- Reads an escape, from its backslash on. -/
def escape : Reader Char := fun cs =>
  let letter := firstChar cs.tail
  match letterEscapes.lookup letter with
  | some c => .ok (c, cs.drop 2)
  | none =>
    match codeEscapes.lookup letter with
    | some count => codePoint count (cs.drop 2)
    | none => broken .unknownEscape cs

/-- Reads the rest of a scalar in the given quotes, given its characters so far in reverse order and
the gap after them. Every round takes a cell off the first argument, which is at least as long as
the text. -/
def quotedFrom (quote : Char) : List Cell → List Char → Gap → Reader (List Char)
  | [], _, _, cs => broken .openQuotes cs
  | _ :: _, _, _, [] => broken .openQuotes []
  | _ :: bound, done, gap, cell :: cs =>
    let c := cell.char
    let before := gap.text.reverse ++ done
    let next := firstChar cs
    if isBreak c then quotedFrom quote bound done (gap.addBreak c) cs
    else if isGap c then quotedFrom quote bound done (gap.addBlank c) cs
    else if isDocumentMark (cell :: cs) then broken .quotedBoundary (cell :: cs)
    else if c = endMark then broken .openQuotes (cell :: cs)
    else if c = quote then
      if quote = '\'' ∧ next = '\'' then quotedFrom quote bound ('\'' :: before) Gap.none cs.tail
      else .ok (before.reverse, cs)
    else if quote = '"' ∧ c = '\\' then
      if isBreak next then quotedFrom quote bound before (.lines none []) cs.tail
      else do
        let (d, cs) ← escape (cell :: cs)
        quotedFrom quote bound (d :: before) Gap.none cs
    else quotedFrom quote bound (c :: before) Gap.none cs

/-- Reads a scalar in the given quotes, after the opening one. -/
def quoted (quote : Char) : Reader (List Char) := fun cs => quotedFrom quote cs [] Gap.none cs

end CouplingMap.Yaml
