import CouplingMap.Yaml.Problem

/-!
# Tokens

Block structure shows in the indentation alone; in a list of tokens it is made explicit by tokens
that open and close blocks.

* `Token`: the words and marks of a text, and the tokens that stand for its layout.
* `Tokens`: the tokens of a text, up to its end or to the first problem.
-/

namespace CouplingMap.Yaml

/-- How a scalar is written. -/
inductive Style where
  | plain
  | quoted
  | literal
  | folded
deriving DecidableEq

/-- A tag as it is written. -/
inductive TagName where
  /-- A tag that is given in full. -/
  | full (text : List Char)
  /-- A tag that starts with what a handle stands for. -/
  | short (handle rest : List Char)
deriving DecidableEq

/-- A line before a document that starts with a percent sign. -/
inductive Directive where
  | version (major minor : Nat)
  /-- What a handle of tags stands for. -/
  | handle (handle stem : List Char)
deriving DecidableEq

/-- A token. -/
inductive Token where
  | directive (d : Directive)
  | documentStart
  | documentEnd
  | blockSequence
  | blockMapping
  | blockEnd
  | openSequence
  | closeSequence
  | openMapping
  | closeMapping
  /-- The mark of an item of a block sequence. -/
  | item
  /-- The mark between items within brackets. -/
  | comma
  /-- The start of a key, which need not be written. -/
  | key
  | value
  | aliasOf (name : List Char)
  | anchor (name : List Char)
  | tag (name : TagName)
  | scalar (style : Style) (text : List Char)
deriving DecidableEq

/-- Something at a place. -/
structure Placed (α : Type) where
  value : α
  place : Place
deriving DecidableEq

/-- The tokens of a text. -/
structure Tokens where
  items : List (Placed Token)
  /-- What follows the last token: the end of the text, at a place, or a problem. -/
  rest : Except Problem Place

end CouplingMap.Yaml
