import CouplingMap.Text.Numeral
import CouplingMap.Yaml.Cell
import CouplingMap.Yaml.Token

/-!
# Anchors, tags and directives

Anchors name a node so that an alias can stand for it. Tags name the type of a node, and may be
shortened by a handle that a directive explains.

* `anchorName`: reads the name of an anchor or alias after its mark.
* `tagName`: reads a tag, with its mark.
* `directive`: reads a directive after its percent sign.
-/

namespace CouplingMap.Yaml

/-! ## Anchors -/

/-- The characters other than blanks and line ends that may follow the name of an anchor. -/
def afterAnchor : List Char := ['?', ':', ',', ']', '}', '%', '@', '\x60']

/-- Reads the name of an anchor or alias; `f` is what is wrong if there is none. -/
def anchorName (f : Fault) : Reader (List Char) := fun cs =>
  let (name, rest) := spanChars isNameChar cs
  let next := firstChar rest
  if name ≠ [] ∧ (endsWord next ∨ next ∈ afterAnchor) then .ok (name, rest) else broken f rest

/-! ## Tags -/

/-- Whether a character may stand in a tag by itself; `full` tags may hold commas and square
brackets. -/
def isTagChar (full : Bool) (c : Char) : Bool :=
  isNameChar c ||
    c ∈ [';', '/', '?', ':', '@', '&', '=', '+', '$', '.', '!', '~', '*', '\'', '(', ')'] ||
    (full && c ∈ [',', '[', ']'])

/-- The number of bytes of a character that starts with the given byte. -/
def byteCount? (first : Nat) : Option Nat :=
  if first < 0x80 then some 1
  else if 0xC0 ≤ first ∧ first < 0xE0 then some 2
  else if 0xE0 ≤ first ∧ first < 0xF0 then some 3
  else if 0xF0 ≤ first ∧ first < 0xF8 then some 4
  else none

/-- The byte in two hexadecimal digits at the start of cells. -/
def byte? : List Cell → Option Nat
  | a :: b :: _ => do some ((← Text.hexValue? a.char) * 16 + (← Text.hexValue? b.char))
  | _ => none

/-- Reads the characters of a tag, or of the meaning of a handle if `stem` is true. A percent sign
escapes a byte, and all bytes of a character are escaped; `due` of them are still to come. Every
round takes a cell off the list that is at least as long as the text. -/
def tagCharsFrom (stem full : Bool) : List Cell → Nat → List Char → Reader (List Char)
  | [], _, _, cs => broken (.noTag stem) cs
  | _ :: bound, due, done, cs =>
    let c := firstChar cs
    if c = '%' then
      match byte? cs.tail with
      | none => broken (.tagEscape stem) cs
      | some byte =>
        let rest := cs.drop 3
        let done := Char.ofNat byte :: done
        if due = 0 then
          match byteCount? byte with
          | none => broken (.tagFirstByte stem) cs
          | some count => tagCharsFrom stem full bound (count - 1) done rest
        else if 0x80 ≤ byte ∧ byte < 0xC0 then tagCharsFrom stem full bound (due - 1) done rest
        else broken (.tagNextByte stem) cs
    else if due ≠ 0 then broken (.tagEscape stem) cs
    else if isTagChar full c then tagCharsFrom stem full bound 0 (c :: done) cs.tail
    else .ok (done.reverse, cs)

/-- Reads the characters of a tag; there must be some. -/
def tagChars (stem full : Bool) : Reader (List Char) := fun cs => do
  let (name, rest) ← tagCharsFrom stem full cs 0 [] cs
  if rest.length = cs.length then broken (.noTag stem) cs else .ok (name, rest)

/-- A text up to the first null character, at which it ends. -/
def untilNull (s : List Char) : List Char := s.takeWhile (· ≠ '\x00')

/-- Reads the handle at the start of a tag: names between exclamation marks. -/
def handle? : List Cell → Option (List Char × List Cell)
  | [] => none
  | c :: cs =>
    let (name, rest) := spanChars isNameChar cs
    if c.char = '!' ∧ firstChar rest = '!' then some ('!' :: name ++ ['!'], rest.tail) else none

/-- The handle of a tag that has no other one. -/
def ownHandle : List Char := ['!']

/-- Reads a tag, from its exclamation mark on, without a look at what follows. -/
def tagNameOpen : Reader TagName := fun cs =>
  if firstChar cs.tail = '<' then do
    let (name, rest) ← tagChars false true cs.tail.tail
    if firstChar rest = '>' then .ok (.full (untilNull name), rest.tail) else broken .openTag rest
  else
    match handle? cs with
    | some (handle, rest) => do
      let (name, rest) ← tagChars false false rest
      .ok (.short handle (untilNull name), rest)
    | none => do
      let (name, rest) ← tagCharsFrom false false cs 0 [] cs.tail
      let name := untilNull name
      .ok (if name = [] then .full ownHandle else .short ownHandle name, rest)

/-- Reads a tag. A blank or line end must follow it, or a comma within brackets. -/
def tagName (flow : Bool) : Reader TagName := fun cs => do
  let (name, rest) ← tagNameOpen cs
  let next := firstChar rest
  if endsWord next ∨ (flow ∧ next = ',') then .ok (name, rest) else broken .tagEnd rest

/-! ## Directives -/

/-- The number of digits that a part of a version may have. -/
def maxVersionDigits : Nat := 9

/-- Reads a part of a version. -/
def versionPart : Reader Nat := fun cs =>
  let (digits, rest) := spanChars Char.isDigit cs
  if maxVersionDigits < digits.length then broken .longVersion (cs.drop maxVersionDigits)
  else
    match Text.digitRun? digits with
    | some n => .ok (n, rest)
    | none => broken .noVersion rest

/-- Reads the two parts of a version. -/
def version : Reader Directive := fun cs => do
  let (major, cs) ← versionPart (skipGaps cs)
  if firstChar cs = '.' then
    let (minor, cs) ← versionPart cs.tail
    .ok (.version major minor, cs)
  else broken .noVersionPoint cs

/-- Reads a handle and what it stands for. -/
def handleDirective : Reader Directive := fun cs => do
  let cs := skipGaps cs
  let (handle, rest) ←
    match handle? cs with
    | some found => .ok found
    | none => if firstChar cs = '!' then .ok (ownHandle, cs.tail) else broken .handleMark cs
  if !isGap (firstChar rest) then broken .handleGap rest
  else
    let (stem, rest) ← tagChars true true (skipGaps rest)
    if endsWord (firstChar rest) then .ok (.handle handle (untilNull stem), rest)
    else broken .handleEnd rest

/-- Reads a directive after its percent sign, up to the end of its line. -/
def directive : Reader Directive := fun cs => do
  let (name, rest) := spanChars isNameChar cs
  if name = [] then broken .noDirectiveName cs
  else if !endsWord (firstChar rest) then broken .directiveNameEnd rest
  else
    let (d, rest) ←
      if name = ['Y', 'A', 'M', 'L'] then version rest
      else if name = ['T', 'A', 'G'] then handleDirective rest
      else broken .unknownDirective rest
    .ok (d, ← skipLine .directiveRest rest)

end CouplingMap.Yaml
