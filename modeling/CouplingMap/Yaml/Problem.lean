import CouplingMap.Text.Escaped
import CouplingMap.Text.Numeral

/-!
# What can be wrong with a text

* `Place`: where something stands in a text.
* `Flaw`: a rule of the format that is broken at a place.
* `Problem`: why a text is refused, as it is not in the format or not what is asked for.
* `Problem.message`: the wording.
-/

namespace CouplingMap.Yaml

/-! ## Places -/

/-- A place in a text: on which line it is, and how many characters and how many bytes stand before
it on the line. -/
structure Place where
  line : Nat
  column : Nat
  bytes : Nat
deriving DecidableEq

namespace Place

/-- The first place. -/
def first : Place := ⟨0, 0, 0⟩

/-- The place after a character within a line. -/
def after (p : Place) (c : Char) : Place := ⟨p.line, p.column + 1, p.bytes + c.utf8Size⟩

/-- The place after the end of a line. -/
def nextLine (p : Place) : Place := ⟨p.line + 1, 0, 0⟩

/-- Whether nothing stands before a place. -/
def isFirst (p : Place) : Bool := p.line = 0 && p.column = 0

/-- A place with lines and columns counted from one. The first place need not be named. -/
def text (p : Place) : String :=
  if p.isFirst then ""
  else
    " at line " ++ String.ofList (Text.digits (p.line + 1)) ++ " column " ++
      String.ofList (Text.digits (p.column + 1))

end Place

/-! ## Broken rules -/

/-- A rule of the format that is broken. -/
inductive Fault where
  /-- No token starts with the character. -/
  | noToken
  /-- What has to be a key has no colon after it. -/
  | noColon
  /-- An item is marked where none can start. -/
  | strayItem
  /-- A key is marked where none can start. -/
  | strayKey
  /-- A value is marked where none can start. -/
  | strayValue
  | noDirectiveName
  | directiveNameEnd
  | unknownDirective
  /-- More than a comment follows a directive. -/
  | directiveRest
  | noVersion
  | longVersion
  | noVersionPoint
  /-- A handle does not stand between exclamation marks. -/
  | handleMark
  | handleGap
  | handleEnd
  | noAnchorName
  | noAliasName
  /-- A tag in brackets is not closed. -/
  | openTag
  | tagEnd
  /-- A tag is missing; `stem` tells whether it is the meaning of a handle. -/
  | noTag (stem : Bool)
  | tagEscape (stem : Bool)
  | tagFirstByte (stem : Bool)
  | tagNextByte (stem : Bool)
  | zeroDepth
  /-- More than a comment follows the header of a block scalar. -/
  | blockRest
  | blockTab
  /-- A document ends within quotes. -/
  | quotedBoundary
  | openQuotes
  | unknownEscape
  | escapeDigits
  | escapeCode
  | plainColon
  | plainTab
  | noDocumentStart
  | secondVersion
  | unknownVersion
  | secondHandle
  | unknownHandle
  /-- A node has no content; `block` tells whether it stands outside of brackets. -/
  | noContent (block : Bool)
  | noItem
  | noKey
  /-- Items within square brackets are not divided. -/
  | noSequenceComma
  /-- Entries within braces are not divided. -/
  | noMappingComma
deriving DecidableEq

namespace Fault

/-- What is wrong. -/
def text : Fault → String
  | noToken => "found character that cannot start any token"
  | noColon => "could not find expected ':'"
  | strayItem => "block sequence entries are not allowed in this context"
  | strayKey => "mapping keys are not allowed in this context"
  | strayValue => "mapping values are not allowed in this context"
  | noDirectiveName => "could not find expected directive name"
  | directiveNameEnd => "found unexpected non-alphabetical character"
  | unknownDirective => "found unknown directive name"
  | directiveRest | blockRest => "did not find expected comment or line break"
  | noVersion => "did not find expected version number"
  | longVersion => "found extremely long version number"
  | noVersionPoint => "did not find expected digit or '.' character"
  | handleMark => "did not find expected '!'"
  | handleGap => "did not find expected whitespace"
  | handleEnd | tagEnd => "did not find expected whitespace or line break"
  | noAnchorName | noAliasName => "did not find expected alphabetic or numeric character"
  | openTag => "did not find the expected '>'"
  | noTag _ => "did not find expected tag URI"
  | tagEscape _ => "did not find URI escaped octet"
  | tagFirstByte _ => "found an incorrect leading UTF-8 octet"
  | tagNextByte _ => "found an incorrect trailing UTF-8 octet"
  | zeroDepth => "found an indentation indicator equal to 0"
  | blockTab => "found a tab character where an indentation space is expected"
  | quotedBoundary => "found unexpected document indicator"
  | openQuotes => "found unexpected end of stream"
  | unknownEscape => "found unknown escape character"
  | escapeDigits => "did not find expected hexdecimal number"
  | escapeCode => "found invalid Unicode character escape code"
  | plainColon => "found unexpected ':'"
  | plainTab => "found a tab character that violates indentation"
  | noDocumentStart => "did not find expected <document start>"
  | secondVersion => "found duplicate %YAML directive"
  | unknownVersion => "found incompatible YAML document"
  | secondHandle => "found duplicate %TAG directive"
  | unknownHandle => "found undefined tag handle"
  | noContent _ => "did not find expected node content"
  | noItem => "did not find expected '-' indicator"
  | noKey => "did not find expected key"
  | noSequenceComma => "did not find expected ',' or ']'"
  | noMappingComma => "did not find expected ',' or '\x7d'"

/-- What was being read, if that is told. -/
def activity? : Fault → Option String
  | noToken => some "while scanning for the next token"
  | noColon => some "while scanning a simple key"
  | noDirectiveName | directiveNameEnd | unknownDirective | directiveRest | handleMark =>
    some "while scanning a directive"
  | noVersion | longVersion | noVersionPoint => some "while scanning a %YAML directive"
  | handleGap | handleEnd => some "while scanning a %TAG directive"
  | noAnchorName => some "while scanning an anchor"
  | noAliasName => some "while scanning an alias"
  | openTag | tagEnd => some "while scanning a tag"
  | noTag stem | tagEscape stem | tagFirstByte stem | tagNextByte stem =>
    some (if stem then "while parsing a %TAG directive" else "while parsing a tag")
  | zeroDepth | blockRest | blockTab => some "while scanning a block scalar"
  | quotedBoundary | openQuotes => some "while scanning a quoted scalar"
  | unknownEscape | escapeDigits | escapeCode => some "while parsing a quoted scalar"
  | plainColon | plainTab => some "while scanning a plain scalar"
  | unknownHandle => some "while parsing a node"
  | noContent block => some (if block then "while parsing a block node" else
      "while parsing a flow node")
  | noItem => some "while parsing a block collection"
  | noKey => some "while parsing a block mapping"
  | noSequenceComma => some "while parsing a flow sequence"
  | noMappingComma => some "while parsing a flow mapping"
  | strayItem | strayKey | strayValue | noDocumentStart | secondVersion | unknownVersion |
    secondHandle => none

end Fault

/-- A rule that is broken at a place. -/
structure Flaw where
  fault : Fault
  place : Place
deriving DecidableEq

/-! ## Problems -/

/-- Why a value is not what is asked for. -/
inductive Mismatch where
  /-- The value is of another kind. -/
  | wrongKind (found expected : String)
  /-- The text of a value does not fit its tag. -/
  | wrongText (found expected : String)
  /-- A key is repeated. -/
  | repeated (key : String)
deriving DecidableEq

/-- The wording of a mismatch. -/
def Mismatch.message : Mismatch → String
  | wrongKind found expected => "invalid type: " ++ found ++ ", expected " ++ expected
  | wrongText found expected =>
    "invalid value: string " ++ Text.escaped found ++ ", expected " ++ expected
  | repeated key => "duplicate field `" ++ key ++ "`"

/-- Why a text is refused. -/
inductive Problem where
  /-- A character that no text may hold stands after so many bytes. -/
  | character (bytes : Nat)
  /-- A rule is broken within something that starts at a place. -/
  | flaw (f : Flaw) (start : Place)
  /-- No node before an alias has its name. -/
  | unknownAnchor (place : Place)
  /-- The text ends before the value does. -/
  | ended
  /-- There is more than one document. -/
  | several
  /-- A value is not what is asked for; the keys lead to it. -/
  | mismatch (m : Mismatch) (keys : List String) (place : Place)
deriving DecidableEq

/-- The wording of a problem. -/
def Problem.message : Problem → String
  | character bytes =>
    "control characters are not allowed" ++
      if bytes = 0 then "" else " at position " ++ String.ofList (Text.digits bytes)
  | flaw f start =>
    f.fault.text ++ f.place.text ++
      match f.fault.activity? with
      | none => ""
      | some activity => ", " ++ activity ++ if start = f.place then "" else start.text
  | unknownAnchor place => "unknown anchor" ++ place.text
  | ended => "EOF while parsing a value"
  | several => "deserializing from YAML containing more than one document is not supported"
  | mismatch m keys place =>
    (if keys = [] then "" else ".".intercalate keys ++ ": ") ++ m.message ++ place.text

end CouplingMap.Yaml
