import CouplingMap.Yaml.Gap

/-!
# Plain scalars

A plain scalar has no quotes. It is over at a comment, at a colon that ends a word, at a document
mark, and in a block also at a line that is indented too little. Within brackets the characters of
flow collections end it as well.

* `canStartPlain`: whether a plain scalar starts at a character.
* `plain`: reads one.
-/

namespace CouplingMap.Yaml

/-- The characters that have a meaning of their own at the start of a token. -/
def indicators : List Char :=
  ['-', '?', ':', ',', '[', ']', '{', '}', '#', '&', '*', '!', '|', '>', '\'', '"', '%', '@',
   '\x60']

/-- The characters that open, close and divide flow collections. -/
def flowIndicators : List Char := [',', '[', ']', '{', '}']

/-- Whether a plain scalar starts at a character, given the one after it. -/
def canStartPlain (flow : Bool) (c next : Char) : Bool :=
  (!endsWord c && c ∉ indicators) || (c = '-' && !isGap next) ||
    (!flow && (c = '?' || c = ':') && !endsWord next)

/-- What a plain scalar is read to. -/
structure Plain where
  text : List Char
  /-- Whether a line end stands between the scalar and what follows. -/
  broken : Bool

/-- Whether a plain scalar is over at cells that do not start with a blank or a line end, given the
gap before them. Lines of a block are indented by at least `limit`. -/
def endsPlain (flow : Bool) (limit : Nat) (gap : Gap) (cell : Cell) (cs : List Cell) : Bool :=
  let c := cell.char
  c = endMark || (c = ':' && endsWord (firstChar cs)) || (flow && c ∈ flowIndicators) ||
    (gap ≠ Gap.none &&
      (c = '#' || isDocumentMark (cell :: cs) || (!flow && cell.column < limit)))

/-- Whether cells break a rule of plain scalars. Within brackets a colon must not stand before a
character that ends the scalar or starts a key. -/
def isMisplacedColon (flow : Bool) (cell : Cell) (cs : List Cell) : Bool :=
  flow && cell.char = ':' && (firstChar cs = '?' || firstChar cs ∈ flowIndicators)

/-- Reads a plain scalar, given its characters so far in reverse order and the gap after them. Lines
of a block are indented by at least `limit`. -/
def plainFrom (flow : Bool) (limit : Nat) : List Char → Gap → Reader Plain
  | done, gap, [] => .ok (⟨done.reverse, gap.isBroken⟩, [])
  | done, gap, cell :: cs =>
    let c := cell.char
    if isBreak c then plainFrom flow limit done (gap.addBreak c) cs
    else if isGap c then
      if c = '\t' ∧ gap.isBroken ∧ cell.column < limit then broken .plainTab (cell :: cs)
      else plainFrom flow limit done (gap.addBlank c) cs
    else if endsPlain flow limit gap cell cs then
      .ok (⟨done.reverse, gap.isBroken⟩, cell :: cs)
    else if isMisplacedColon flow cell cs then broken .plainColon (cell :: cs)
    else plainFrom flow limit (c :: (gap.text.reverse ++ done)) Gap.none cs

/-- Reads a plain scalar. -/
def plain (flow : Bool) (limit : Nat) : Reader Plain := plainFrom flow limit [] Gap.none

end CouplingMap.Yaml
