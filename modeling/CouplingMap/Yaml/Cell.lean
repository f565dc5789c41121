import CouplingMap.Yaml.Problem

/-!
# Characters in their places

A text is read as a list of cells. A cell is a character with its place; the two characters of a
line end count as one cell, and the line ends that are only that become line feeds. The last cell
holds the end mark.

* `cells`: the cells of a text, unless it has a character that no text may hold.
* `Reader`: a function from cells to a value and the cells after it.
* `isBreak`, `isGap`, `endsWord`: the classes of characters on which layout depends.
* `isDocumentMark`: whether a line starts with one of the marks between documents.
-/

namespace CouplingMap.Yaml

/-! ## Classes of characters -/

/-- The mark after the last character, which is no character of a text. -/
def endMark : Char := '\x00'

/-- A mark of the byte order, which may start a line. -/
def byteOrderMark : Char := '\ufeff'

/-- The characters that end a line. -/
def isBreak (c : Char) : Bool :=
  c = '\n' || c = '\r' || c = '\u0085' || c = '\u2028' || c = '\u2029'

/-- The blanks within a line. -/
def isGap (c : Char) : Bool := c = ' ' || c = '\t'

/-- Whether a line is over at a character. -/
def endsLine (c : Char) : Bool := isBreak c || c = endMark

/-- Whether a word is over at a character. -/
def endsWord (c : Char) : Bool := isGap c || endsLine c

/-- The characters of names. -/
def isNameChar (c : Char) : Bool := c.isAlphanum || c = '_' || c = '-'

/-- The characters that a text may hold: controls other than tabs and line ends are excluded, and
so are the two code points at the end of the first plane. -/
def isAllowed (c : Char) : Bool :=
  c = '\t' || c = '\n' || c = '\r' || c = '\u0085' ||
    (0x20 ≤ c.toNat && c.toNat ≤ 0x7E) || (0xA0 ≤ c.toNat && c.toNat ≤ 0xFFFD) ||
    0x10000 ≤ c.toNat

/-! ## Cells -/

/-- A character in its place. -/
structure Cell where
  char : Char
  place : Place
deriving DecidableEq

/-- The column of a cell. -/
def Cell.column (c : Cell) : Nat := c.place.column

/-- What a line end stands for in a text: the two separators of lines and of paragraphs stand for
themselves, the others for a line feed. -/
def lineEnd (c : Char) : Char := if c = '\u2028' ∨ c = '\u2029' then c else '\n'

/-- The cells of characters from a place on. -/
def cellsFrom : Place → List Char → List Cell
  | p, [] => [⟨endMark, p⟩]
  | p, '\r' :: '\n' :: s => ⟨'\n', p⟩ :: cellsFrom p.nextLine s
  | p, c :: s =>
    if isBreak c then ⟨lineEnd c, p⟩ :: cellsFrom p.nextLine s
    else ⟨c, p⟩ :: cellsFrom (p.after c) s

/-- The cells of a text. -/
def cells (s : String) : Except Problem (List Cell) :=
  let allowed := s.toList.takeWhile isAllowed
  if allowed.length = s.toList.length then .ok (cellsFrom .first s.toList)
  else .error (.character (String.ofList allowed).utf8ByteSize)

/-- The place of the first of some cells. -/
def here : List Cell → Place
  | [] => .first
  | c :: _ => c.place

/-- A reader answers a value and the cells after it. -/
abbrev Reader (α : Type) := List Cell → Except Flaw (α × List Cell)

/-- A rule is broken at the first of some cells. -/
def broken {α : Type} (f : Fault) (cs : List Cell) : Except Flaw α := .error ⟨f, here cs⟩

/-- The first character of cells. -/
def firstChar : List Cell → Char
  | [] => endMark
  | c :: _ => c.char

/-- The longest run of characters with a property, and the cells after it. -/
def spanChars (p : Char → Bool) (cs : List Cell) : List Char × List Cell :=
  ((cs.takeWhile fun c => p c.char).map Cell.char, cs.dropWhile fun c => p c.char)

/-- The cells after the blanks of a line. -/
def skipGaps (cs : List Cell) : List Cell := (spanChars isGap cs).2

/-- Passes over the rest of a line and its end: only blanks and a comment may stand there. -/
def skipLine (f : Fault) (cs : List Cell) : Except Flaw (List Cell) :=
  let cs := skipGaps cs
  let cs := if firstChar cs = '#' then (spanChars (fun c => !endsLine c) cs).2 else cs
  if isBreak (firstChar cs) then .ok cs.tail
  else if firstChar cs = endMark then .ok cs
  else broken f cs

/-- Whether cells start with three times a character at the start of a line, and the word is over
after that. -/
def isTripled (mark : Char) : List Cell → Bool
  | a :: b :: c :: rest =>
    a.column = 0 && a.char = mark && b.char = mark && c.char = mark && endsWord (firstChar rest)
  | _ => false

/-- Whether cells start with one of the marks between documents. -/
def isDocumentMark (cs : List Cell) : Bool := isTripled '-' cs || isTripled '.' cs

end CouplingMap.Yaml
