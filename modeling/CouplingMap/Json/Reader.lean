import CouplingMap.Json.Basic

/-!
# Reading JSON texts from left to right

A reader takes a text and answers a value with the rest of the text, or the first problem that it
meets. Lists and objects are read by one walk each, which takes the reader of an item, or the
action on a member, as a parameter. A walk ends because each round reads at least one character.

* `ReadError`: why a text is refused.
* `skipSpace`, `word`: blanks and fixed words.
* `nextItem`, `closeList`, `items`: the items of a list.
* `nextMember`, `colon`: the members of an object.
-/

namespace CouplingMap.Json

/-- Why a text is refused. -/
inductive ReadError where
  /-- The text ends before the value does. -/
  | ended
  /-- The text does not follow the grammar, or a number is too large. -/
  | malformed
  /-- A well-formed value is not of the kind that is asked for. -/
  | unfit
  /-- A complete value breaks a rule of its type. -/
  | ruled (message : String)
deriving DecidableEq, Inhabited

/-- The problem as it is seen outside of the list or object in which it arose: a place in the
text is then known, and the message gives way to it. -/
def ReadError.placed : ReadError → ReadError
  | .ruled _ => .unfit
  | e => e

/-- A reader answers a value and the text after it. -/
abbrev Reader (α : Type) := List Char → Except ReadError (α × List Char)

/-- The four characters that may stand between tokens. -/
def isSpace (c : Char) : Bool := c = ' ' || c = '\t' || c = '\n' || c = '\r'

/-- The text from its first character on that is not a blank. -/
def skipSpace (cs : List Char) : List Char := cs.dropWhile isSpace

/-- Reads the characters of a fixed word. -/
def word : List Char → Reader Unit
  | [], cs => .ok ((), cs)
  | _ :: _, [] => .error .ended
  | w :: ws, c :: cs => if c = w then word ws cs else .error .malformed

/-- What follows the `n` of `null`. -/
def nullTail : List Char := ['u', 'l', 'l']

/-- What follows the `t` of `true`. -/
def trueTail : List Char := ['r', 'u', 'e']

/-- What follows the `f` of `false`. -/
def falseTail : List Char := ['a', 'l', 's', 'e']

/-! ## Lists -/

/-- What stands next in an open list or object. -/
inductive Next where
  /-- The closing bracket, with the text after it. -/
  | close (rest : List Char)
  /-- An item or member, with the text that starts with it. -/
  | more (rest : List Char)

/-- Finds the next item of an open list, or its end. Items after the first follow a comma. -/
def nextItem (first : Bool) (cs : List Char) : Except ReadError Next :=
  match skipSpace cs with
  | [] => .error .ended
  | c :: rest =>
    if c = ']' then .ok (.close rest)
    else if first then .ok (.more (c :: rest))
    else if c = ',' then
      match skipSpace rest with
      | [] => .error .ended
      | d :: rest => if d = ']' then .error .malformed else .ok (.more (d :: rest))
    else .error .malformed

/-- Reads the closing bracket of a list whose items have all been read. -/
def closeList : Reader Unit := fun cs =>
  match skipSpace cs with
  | [] => .error .ended
  | c :: rest => if c = ']' then .ok ((), rest) else .error .malformed

/-- Reads the items of an open list up to its end. Every round takes a character off the first
argument, which is at least as long as the text; the items already read are given in reverse. -/
def itemsFrom {α : Type} (item : Reader α) : List Char → Bool → List α → Reader (List α)
  | [], _, _, _ => .error .ended
  | _ :: bound, first, done, cs => do
    match ← nextItem first cs with
    | .close rest => .ok (done.reverse, rest)
    | .more cs =>
      let (a, cs) ← item cs
      itemsFrom item bound false (a :: done) cs

/-- Reads the items of an open list up to its end. -/
def items {α : Type} (item : Reader α) : Reader (List α) := fun cs => itemsFrom item cs true [] cs

/-! ## Objects -/

/-- Finds the next member of an open object, or its end. A member starts with the quote of its
name, which is consumed. -/
def nextMember (first : Bool) (cs : List Char) : Except ReadError Next :=
  match skipSpace cs with
  | [] => .error .ended
  | c :: rest =>
    if c = '}' then .ok (.close rest)
    else if first then
      if c = '"' then .ok (.more rest) else .error .malformed
    else if c = ',' then
      match skipSpace rest with
      | [] => .error .ended
      | d :: rest => if d = '"' then .ok (.more rest) else .error .malformed
    else .error .malformed

/-- Reads the colon between the name and the value of a member. -/
def colon : Reader Unit := fun cs =>
  match skipSpace cs with
  | [] => .error .ended
  | c :: rest => if c = ':' then .ok ((), rest) else .error .malformed

/-- Reads the members of an open object up to its end. `name` reads a name after its quote, and
`member` what follows the name, given what the members before it have left. Every round takes a
character off the list that is at least as long as the text. -/
def membersFrom {σ : Type} (name : Reader String) (member : σ → String → Reader σ) :
    List Char → Bool → σ → Reader σ
  | [], _, _, _ => .error .ended
  | _ :: bound, first, s, cs => do
    match ← nextMember first cs with
    | .close rest => .ok (s, rest)
    | .more cs =>
      let (key, cs) ← name cs
      let (s, cs) ← member s key cs
      membersFrom name member bound false s cs

/-- Reads the members of an open object up to its end. -/
def members {σ : Type} (name : Reader String) (member : σ → String → Reader σ) (s : σ) :
    Reader σ := fun cs =>
  membersFrom name member cs true s cs

/-- Reads a whole text: after the value only blanks may follow. -/
def Reader.whole {α : Type} (read : Reader α) (cs : List Char) : Except ReadError α := do
  let (a, rest) ← read cs
  match skipSpace rest with
  | [] => .ok a
  | _ :: _ => .error .malformed

end CouplingMap.Json
