import CouplingMap.Yaml.Block
import CouplingMap.Yaml.Plain
import CouplingMap.Yaml.Quoted
import CouplingMap.Yaml.Tag

/-!
# From characters to tokens

A block opens where a line is indented deeper than the block around it, and closes before a line
that is indented less. A key shows only at the colon after it: until then, the first token that can
start a key is kept as a candidate, and the colon puts the mark of the key before it.

* `Layout`: the tokens so far, and what decides about those to come.
* `Layout.step`: reads one token.
* `Tokens.ofText`: the tokens of a text.
-/

namespace CouplingMap.Yaml

/-- A token that may turn out to start a key. -/
structure Candidate where
  /-- Whether nothing but a key can stand here. -/
  required : Bool
  /-- The number of tokens before it. -/
  number : Nat
  place : Place

/-- The tokens so far, and what decides about those to come. -/
structure Layout where
  /-- The tokens in reverse order. -/
  tokens : List (Placed Token)
  /-- The number of tokens. -/
  count : Nat
  /-- The columns of the open blocks, innermost first. -/
  columns : List Nat
  /-- Whether the next token can start a key that is not marked as one. -/
  keyAllowed : Bool
  /-- The candidate for a key in the innermost open brackets, or in the block if there are none. -/
  candidate : Option Candidate
  /-- The candidates around each of the open brackets, innermost first. -/
  outer : List (Option Candidate)

namespace Layout

/-- Nothing has been read. -/
def start : Layout := ⟨[], 0, [], true, none, []⟩

/-- Whether brackets are open. -/
def flow (l : Layout) : Bool := !l.outer.isEmpty

/-- The number of columns by which the lines of the innermost block have to be indented. -/
def limit (l : Layout) : Nat := (l.columns.head?.map (· + 1)).getD 0

/-- The layout with one more token. -/
def add (l : Layout) (t : Token) (p : Place) : Layout :=
  { l with tokens := ⟨t, p⟩ :: l.tokens, count := l.count + 1 }

/-- The layout with a token after the first `number` ones. -/
def insert (l : Layout) (number : Nat) (t : Token) (p : Place) : Layout :=
  { l with tokens := l.tokens.insertIdx (l.count - number) ⟨t, p⟩, count := l.count + 1 }

/-- Opens a block at a place if it is deeper than the innermost one. Brackets have no blocks. -/
def openBlock (l : Layout) (p : Place) (number : Nat) (t : Token) : Layout :=
  if l.flow ∨ p.column < l.limit then l
  else { l.insert number t p with columns := p.column :: l.columns }

/-- Closes the blocks for which the condition on their columns holds, innermost first. -/
def closeBlocks (l : Layout) (p : Place) (deeper : Nat → Bool) : Layout :=
  let left := l.columns.dropWhile deeper
  let closed := l.columns.length - left.length
  { l with
    tokens := List.replicate closed ⟨.blockEnd, p⟩ ++ l.tokens
    count := l.count + closed
    columns := left }

/-- Closes the blocks that are deeper than a place. -/
def closeTo (l : Layout) (p : Place) : Layout :=
  if l.flow then l else l.closeBlocks p (p.column < ·)

/-- Closes all blocks. -/
def closeAll (l : Layout) (p : Place) : Layout :=
  if l.flow then l else l.closeBlocks p fun _ => true

/-- Allows or forbids that the next token starts a key. -/
def allowKey (l : Layout) (allowed : Bool) : Layout := { l with keyAllowed := allowed }

/-! ## Candidates -/

/-- Gives up the candidate. One that was required must not be given up. -/
def giveUp (l : Layout) (p : Place) : Except Problem Layout :=
  match l.candidate with
  | some ⟨true, _, start⟩ => .error (.flaw ⟨.noColon, p⟩ start)
  | _ => .ok { l with candidate := none }

/-- Makes the next token a candidate if it can start a key. It is required if it starts a line of
the innermost block. -/
def propose (l : Layout) (p : Place) : Except Problem Layout :=
  if l.keyAllowed then do
    let required := !l.flow && l.columns.head? = some p.column
    .ok { ← l.giveUp p with candidate := some ⟨required, l.count, p⟩ }
  else .ok l

/-- The number of bytes that a key may have. -/
def maxKeyBytes : Nat := 1024

/-- Whether a candidate can no longer become a key at a place: a key ends on its line. -/
def isStale (p : Place) (c : Candidate) : Bool :=
  c.place.line < p.line || c.place.bytes + maxKeyBytes < p.bytes

/-- Gives up the candidate if it can no longer become a key. Those around open brackets are looked
at after the brackets have been closed. -/
def refresh (l : Layout) (p : Place) : Except Problem Layout :=
  if l.candidate.any (isStale p) then l.giveUp p else .ok l

/-- The tokens before the first candidate. Only these are known for sure while it is not known
whether the candidate becomes a key. -/
def settled (l : Layout) : List (Placed Token) :=
  let number := ((l.candidate :: l.outer).filterMap id).foldl (fun n c => min n c.number) l.count
  (l.tokens.drop (l.count - number)).reverse

/-! ## Tokens -/

/-- Passes over blanks, comments and line ends, given whether the text is within a comment. Answers
also whether a key is allowed after that, as it is at the start of a line of a block. Where a key is
allowed in a block, tabs are not passed over. -/
def seek (flow : Bool) : Bool → Bool → List Cell → Bool × List Cell
  | _, allowed, [] => (allowed, [])
  | comment, allowed, c :: cs =>
    if isBreak c.char then seek flow false (allowed || !flow) cs
    else if c.char = endMark then (allowed, c :: cs)
    else if comment ∨ c.char = '#' then seek flow true allowed cs
    else if c.char = ' ' ∨ (c.char = '\t' ∧ (flow ∨ !allowed)) ∨
        (c.char = byteOrderMark ∧ c.column = 0) then
      seek flow false allowed cs
    else (allowed, c :: cs)

/-- What a reader answers for a part of the text that starts at a place. -/
def within {α : Type} (start : Place) : Except Flaw α → Except Problem α
  | .ok a => .ok a
  | .error f => .error (.flaw f start)

/-- A token that ends all blocks. -/
def boundary (l : Layout) (p : Place) (t : Token) : Except Problem Layout := do
  .ok (((← (l.closeAll p).giveUp p).allowKey false).add t p)

/-- An opening bracket. -/
def openBracket (l : Layout) (p : Place) (t : Token) : Except Problem Layout := do
  let l ← l.propose p
  .ok { (l.allowKey true).add t p with candidate := none, outer := l.candidate :: l.outer }

/-- A closing bracket. -/
def closeBracket (l : Layout) (p : Place) (t : Token) : Except Problem Layout := do
  let l := ((← l.giveUp p).allowKey false).add t p
  match l.outer with
  | [] => .ok l
  | c :: outer => .ok { l with candidate := c, outer := outer }

/-- A comma. -/
def comma (l : Layout) (p : Place) : Except Problem Layout := do
  .ok (((← l.giveUp p).allowKey true).add .comma p)

/-- Whether the mark of an item, a key or a value must not stand here. -/
def isStray (l : Layout) : Bool := !l.flow && !l.keyAllowed

/-- The mark of an item of a block sequence. -/
def item (l : Layout) (p : Place) : Except Problem Layout :=
  if l.isStray then .error (.flaw ⟨.strayItem, p⟩ p)
  else do
    let l := l.openBlock p l.count .blockSequence
    .ok (((← l.giveUp p).allowKey true).add .item p)

/-- The mark of a key. -/
def key (l : Layout) (p : Place) : Except Problem Layout :=
  if l.isStray then .error (.flaw ⟨.strayKey, p⟩ p)
  else do
    let l := l.openBlock p l.count .blockMapping
    .ok (((← l.giveUp p).allowKey !l.flow).add .key p)

/-- The mark of a value. It turns a candidate into a key. -/
def value (l : Layout) (p : Place) : Except Problem Layout :=
  match l.candidate with
  | some c =>
    let l := (l.insert c.number .key c.place).openBlock c.place c.number .blockMapping
    .ok (({ l with candidate := none }.allowKey false).add .value p)
  | none =>
    if l.isStray then .error (.flaw ⟨.strayValue, p⟩ p)
    else
      let l := l.openBlock p l.count .blockMapping
      .ok ((l.allowKey !l.flow).add .value p)

/-- Reads a token that can start a key. -/
def word (l : Layout) (p : Place) (read : Reader Token) (cs : List Cell) :
    Except Problem (Layout × List Cell) := do
  let l ← l.propose p
  let (t, cs) ← within p (read cs)
  .ok ((l.allowKey false).add t p, cs)

/-- Reads a plain scalar. A key is allowed after it if a line end follows. -/
def plain (l : Layout) (p : Place) (cs : List Cell) : Except Problem (Layout × List Cell) := do
  let l ← l.propose p
  let (s, cs) ← within p (Yaml.plain l.flow l.limit cs)
  .ok ((l.allowKey s.broken).add (.scalar .plain s.text) p, cs)

/-- Reads a block scalar, after its first character. -/
def block (l : Layout) (p : Place) (style : Style) (cs : List Cell) :
    Except Problem (Layout × List Cell) := do
  let l ← l.giveUp p
  let (s, cs) ← within p (blockScalar (style = .folded) l.columns.head? cs)
  .ok ((l.allowKey true).add (.scalar style s) p, cs)

/-- A reader of a token, from the reader of what it holds. -/
def tokenOf {α : Type} (make : α → Token) (read : Reader α) : Reader Token := fun cs =>
  (read cs).map fun r => (make r.1, r.2)

/-- Reads one token, given its first cell and the cells after it. -/
def step (l : Layout) (cell : Cell) (rest : List Cell) : Except Problem (Layout × List Cell) :=
  let c := cell.char
  let p := cell.place
  let next := firstChar rest
  let alone := l.flow || endsWord next
  let after (l : Except Problem Layout) : Except Problem (Layout × List Cell) :=
    l.map fun l => (l, rest)
  if c = '%' ∧ p.column = 0 then do
    let (d, cs) ← within p (directive rest)
    .ok (← l.boundary p (.directive d), cs)
  else if isDocumentMark (cell :: rest) then do
    .ok (← l.boundary p (if c = '-' then .documentStart else .documentEnd), rest.drop 2)
  else if c = '[' then after (l.openBracket p .openSequence)
  else if c = '\x7b' then after (l.openBracket p .openMapping)
  else if c = ']' then after (l.closeBracket p .closeSequence)
  else if c = '\x7d' then after (l.closeBracket p .closeMapping)
  else if c = ',' then after (l.comma p)
  else if c = '-' ∧ endsWord next then after (l.item p)
  else if c = '?' ∧ alone then after (l.key p)
  else if c = ':' ∧ alone then after (l.value p)
  else if c = '*' then l.word p (tokenOf .aliasOf (anchorName .noAliasName)) rest
  else if c = '&' then l.word p (tokenOf .anchor (anchorName .noAnchorName)) rest
  else if c = '!' then l.word p (tokenOf .tag (tagName l.flow)) (cell :: rest)
  else if c = '|' ∧ !l.flow then l.block p .literal rest
  else if c = '>' ∧ !l.flow then l.block p .folded rest
  else if c = '\'' ∨ c = '"' then l.word p (tokenOf (.scalar .quoted) (quoted c)) rest
  else if canStartPlain l.flow c next then l.plain p (cell :: rest)
  else .error (.flaw ⟨.noToken, p⟩ p)

/-- Closes all blocks at the end of the text, which counts as the end of a line. -/
def finish (l : Layout) (p : Place) : Except Problem Tokens := do
  let p := if p.column = 0 then p else p.nextLine
  let l ← (l.closeAll p).giveUp p
  .ok ⟨l.tokens.reverse, .ok p⟩

/-- What is read next: one more token, or all tokens if the text is over. -/
def next (l : Layout) (cs : List Cell) : Except Problem (Tokens ⊕ Layout × List Cell) := do
  let (allowed, cs) := seek l.flow false l.keyAllowed cs
  let l ← l.refresh (here cs)
  match cs with
  | [] => (l.finish .first).map .inl
  | cell :: rest =>
    if cell.char = endMark then (l.finish cell.place).map .inl
    else (((l.allowKey allowed).closeTo cell.place).step cell rest).map .inr

/-- Reads all tokens. Every round takes a cell off the first argument, which is at least as long as
the text. -/
def readFrom : List Cell → Layout → List Cell → Tokens
  | [], l, _ => ⟨l.settled, .error .ended⟩
  | _ :: bound, l, cs =>
    match l.refresh (here cs) with
    | .error problem => ⟨l.settled, .error problem⟩
    | .ok l =>
      match l.next cs with
      | .error problem => ⟨l.settled, .error problem⟩
      | .ok (.inl tokens) => tokens
      | .ok (.inr (l, cs)) => readFrom bound l cs

end Layout

/-- The tokens of a text. -/
def Tokens.ofText (s : String) : Tokens :=
  match cells s with
  | .ok cs => Layout.readFrom cs .start cs
  | .error problem => ⟨[], .error problem⟩

end CouplingMap.Yaml
