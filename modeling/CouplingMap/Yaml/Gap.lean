import CouplingMap.Yaml.Cell

/-!
# Gaps between words

Scalars that run over several lines are folded: what stands between two words becomes one blank if
it has one line end, and otherwise the line ends after the first one. Blanks at line ends and line
starts are lost.

* `Gap`: what has been passed over since the last word.
* `Gap.text`: the text that it stands for.
-/

namespace CouplingMap.Yaml

/-- What has been passed over since the last word; the characters are in reverse order. -/
inductive Gap where
  /-- Blanks of one line. -/
  | blanks (chars : List Char)
  /-- Line ends with blanks around them: the first one, which is absent if it was escaped, and
  those that follow. -/
  | lines (first : Option Char) (more : List Char)
deriving DecidableEq

namespace Gap

/-- Nothing has been passed over. -/
def none : Gap := blanks []

/-- Whether the gap has a line end. -/
def isBroken : Gap → Bool
  | blanks _ => false
  | lines .. => true

/-- The gap with one more blank. -/
def addBlank (c : Char) : Gap → Gap
  | blanks cs => blanks (c :: cs)
  | lines first more => lines first more

/-- The gap with one more line end. -/
def addBreak (c : Char) : Gap → Gap
  | blanks _ => lines (some c) []
  | lines first more => lines first (c :: more)

/-- The text that a gap between two words stands for. -/
def text : Gap → List Char
  | blanks cs => cs.reverse
  | lines (some '\n') [] => [' ']
  | lines (some '\n') more => more.reverse
  | lines first more => first.toList ++ more.reverse

end Gap

end CouplingMap.Yaml
