import CouplingMap.Yaml.Event
import CouplingMap.Yaml.Layout

/-!
# From tokens to documents

Collections are read by one walk for each of their five forms, which takes the reader of a node as a
parameter. A walk ends because every round takes at least one token.

* `Builder`: a reader of tokens that writes events.
* `node`: reads a node.
* `Document.ofText`: the first document of a text.
-/

namespace CouplingMap.Yaml

/-- The tokens that are left, what follows them, the anchors so far and the events so far. -/
structure Source where
  tokens : List (Placed Token)
  rest : Except Problem Place
  /-- The names of the anchors, each with the number that it stands for at this point. -/
  anchors : List (List Char × Nat)
  /-- The events in reverse order. -/
  events : Events

/-- A reader of tokens that writes events. The events before a problem are kept. -/
abbrev Builder (α : Type) := ExceptT Problem (StateM Source) α

namespace Builder

/-- The next token, or none at the end of the text, with its place. -/
def peek : Builder (Option Token × Place) := do
  let s ← get
  match s.tokens with
  | t :: _ => return (some t.value, t.place)
  | [] =>
    match s.rest with
    | .ok p => return (none, p)
    | .error problem => throw problem

/-- The next token. -/
def token : Builder (Option Token) := do return (← peek).1

/-- The place of the next token. -/
def place : Builder Place := do return (← peek).2

/-- Passes over the next token. -/
def skip : Builder Unit := modify fun s => { s with tokens := s.tokens.tail }

/-- A rule is broken at the next token, in something that starts at a place. -/
def refuse {α : Type} (f : Fault) (start : Place) : Builder α := do
  throw (.flaw ⟨f, ← place⟩ start)

/-- Passes over the next token if it is the given one, and answers whether it is. -/
def took (t : Token) : Builder Bool := do
  if (← token) = some t then
    skip
    return true
  else return false

/-- Whether the next token is one of the given ones. -/
def isNext (ts : List Token) : Builder Bool := do return (← token).any (· ∈ ts)

/-- Writes an event. -/
def write (e : Event) (p : Place) : Builder Unit :=
  modify fun s => { s with events := ⟨e, p⟩ :: s.events }

/-- Writes that there is nothing. -/
def writeEmpty : Builder Unit := do write (.scalar none .empty) (← place)

/-- Gives a name to the node that comes next. Its number is the count of names before it. -/
def define (name : List Char) : Builder Nat := do
  let s ← get
  let n := s.anchors.length
  set { s with anchors := (name, n) :: s.anchors.filter (·.1 ≠ name) }
  return n

/-- Gives a name, if there is one, to the node that comes next. -/
def define? (name : Option (List Char)) : Builder (Option Nat) :=
  match name with
  | none => return none
  | some name => return some (← define name)

end Builder

open Builder

/-- A reader of nodes. Sequences that are `indentless` need not be indented deeper than the key
before them. -/
abbrev NodeBuilder := (block indentless : Bool) → Builder Unit

/-! ## Blocks -/

/-- Reads a node of a block, or nothing if one of the given tokens comes next. -/
def blockNode (node : NodeBuilder) (indentless : Bool) (ends : List Token) : Builder Unit := do
  if ← isNext ends then writeEmpty else node true indentless

/-- Reads the items of a block sequence up to its end. Every round takes a token off the list, which
is at least as long as the text. -/
def blockItems (node : NodeBuilder) (start : Place) : List (Placed Token) → Builder Unit
  | [] => refuse .noItem start
  | _ :: bound => do
    if ← took .item then
      blockNode node false [.item, .blockEnd]
      blockItems node start bound
    else
      let p ← place
      if ← took .blockEnd then write .closeSequence p else refuse .noItem start

/-- Reads the items of a sequence that is not indented; it has no end of its own. -/
def indentlessItems (node : NodeBuilder) (start : Place) : List (Placed Token) → Builder Unit
  | [] => refuse .noItem start
  | _ :: bound => do
    if ← took .item then
      blockNode node false [.item, .key, .value, .blockEnd]
      indentlessItems node start bound
    else write .closeSequence (← place)

/-- Reads the entries of a block mapping up to its end. -/
def blockEntries (node : NodeBuilder) (start : Place) : List (Placed Token) → Builder Unit
  | [] => refuse .noKey start
  | _ :: bound => do
    if ← took .key then
      let ends := [.key, .value, .blockEnd]
      blockNode node true ends
      if ← took .value then blockNode node true ends else writeEmpty
      blockEntries node start bound
    else
      let p ← place
      if ← took .blockEnd then write .closeMapping p else refuse .noKey start

/-! ## Flow collections -/

/-- Reads a node within brackets, or nothing if one of the given tokens comes next. -/
def flowNode (node : NodeBuilder) (ends : List Token) : Builder Unit := do
  if ← isNext ends then writeEmpty else node false false

/-- Reads the value of an entry within brackets, which may be left out. -/
def flowValue (node : NodeBuilder) (ends : List Token) : Builder Unit := do
  if ← took .value then flowNode node ends else writeEmpty

/-- Reads the comma before an item that is not the first one; `f` is what is wrong if it is missing.
Answers whether the closing bracket comes next. -/
def closes (first : Bool) (close : Token) (f : Fault) (start : Place) : Builder Bool := do
  if ← isNext [close] then return true
  else if first then return false
  else if ← took .comma then isNext [close]
  else refuse f start

/-- Reads a single entry in the place of an item, after the mark of its key. Where a key is left
out, the token after the mark is passed over. -/
def flowPair (node : NodeBuilder) : Builder Unit := do
  if ← isNext [.value, .comma, .closeSequence] then
    writeEmpty
    skip
  else node false false
  flowValue node [.comma, .closeSequence]
  write .closeMapping (← place)

/-- Reads the items of a flow sequence up to its end. -/
def flowItems (node : NodeBuilder) (start : Place) :
    List (Placed Token) → Bool → Builder Unit
  | [], _ => refuse .noSequenceComma start
  | _ :: bound, first => do
    if ← closes first .closeSequence .noSequenceComma start then
      write .closeSequence (← place)
      skip
    else
      let p ← place
      if ← took .key then
        write (.openMapping none) p
        flowPair node
      else node false false
      flowItems node start bound false

/-- Reads the entries of a flow mapping up to its end. -/
def flowEntries (node : NodeBuilder) (start : Place) :
    List (Placed Token) → Bool → Builder Unit
  | [], _ => refuse .noMappingComma start
  | _ :: bound, first => do
    if ← closes first .closeMapping .noMappingComma start then
      write .closeMapping (← place)
      skip
    else
      let ends := [.comma, .closeMapping]
      if ← took .key then
        flowNode node (.value :: ends)
        flowValue node ends
      else
        node false false
        writeEmpty
      flowEntries node start bound false

/-! ## Nodes -/

/-- What stands before a node: an anchor, and a tag with its place, in either order. -/
structure Properties where
  anchor : Option (List Char)
  tag : Option (TagName × Place)

/-- Reads an anchor, if there is one. -/
def anchor? : Builder (Option (List Char)) := do
  match ← token with
  | some (.anchor name) => skip; return some name
  | _ => return none

/-- Reads a tag, if there is one. -/
def tag? : Builder (Option (TagName × Place)) := do
  match ← peek with
  | (some (.tag name), p) => skip; return some (name, p)
  | _ => return none

/-- Reads what stands before a node. -/
def properties : Builder Properties := do
  match ← anchor? with
  | some a => return ⟨some a, ← tag?⟩
  | none =>
    match ← tag? with
    | some t => return ⟨← anchor?, some t⟩
    | none => return ⟨none, none⟩

/-- What the handles of tags stand for. -/
abbrev Handles := List (List Char × List Char)

/-- A tag in full, unless its handle is unknown. -/
def TagName.resolve? (handles : Handles) : TagName → Option (List Char)
  | .full text => some text
  | .short handle rest => (handles.lookup handle).map (· ++ rest)

/-- The tag of a node that starts at a place; its handle must be known. -/
def fullTag (handles : Handles) (start : Place) :
    Option (TagName × Place) → Builder (Option (List Char))
  | none => return none
  | some (name, p) =>
    match name.resolve? handles with
    | some tag => return some tag
    | none => throw (.flaw ⟨.unknownHandle, p⟩ start)

/-- Reads an alias, after its token. -/
def mention (name : List Char) (p : Place) : Builder Unit := do
  match (← get).anchors.lookup name with
  | some n => write (.aliasOf n) p
  | none => throw (.unknownAnchor p)

/-- Reads a node. The list bounds the depth of the tree. -/
def node (handles : Handles) : List (Placed Token) → NodeBuilder
  | [], block, _ => do refuse (.noContent block) (← place)
  | _ :: bound, block, indentless => do
    let start ← place
    if let some (.aliasOf name) ← token then
      skip
      mention name start
    else
      let props ← properties
      let tag ← fullTag handles start props.tag
      let inner := node handles bound
      let left := (← get).tokens
      match ← token with
      | some (.scalar style text) =>
        skip
        write (.scalar (← define? props.anchor) ⟨text, style, tag⟩) start
      | some .openSequence =>
        skip
        write (.openSequence (← define? props.anchor)) start
        flowItems inner start left true
      | some .openMapping =>
        skip
        write (.openMapping (← define? props.anchor)) start
        flowEntries inner start left true
      | some .blockSequence =>
        skip
        write (.openSequence (← define? props.anchor)) start
        blockItems inner start left
      | some .blockMapping =>
        skip
        write (.openMapping (← define? props.anchor)) start
        blockEntries inner start left
      | t =>
        if t = some .item ∧ indentless then
          write (.openSequence (← define? props.anchor)) start
          indentlessItems inner start left
        else if props.anchor.isSome ∨ props.tag.isSome then
          write (.scalar (← define? props.anchor) ⟨[], .plain, tag⟩) start
        else refuse (.noContent block) start

/-! ## The text -/

/-- The versions of the format that can be read. -/
def knownVersions : List (Nat × Nat) := [(1, 1), (1, 2)]

/-- The handles that need no directive. -/
def standardHandles : Handles :=
  [(['!'], ['!']), (['!', '!'], "tag:yaml.org,2002:".toList)]

/-- Reads the directives before a document. There is at most one version, and no handle is
explained twice. -/
def directives : List (Placed Token) → Bool → Handles → Builder Handles
  | [], _, handles => return handles
  | _ :: bound, versioned, handles => do
    match ← peek with
    | (some (.directive (.version major minor)), p) =>
      if versioned then throw (.flaw ⟨.secondVersion, p⟩ p)
      else if (major, minor) ∉ knownVersions then throw (.flaw ⟨.unknownVersion, p⟩ p)
      else
        skip
        directives bound true handles
    | (some (.directive (.handle handle stem)), p) =>
      if (handles.lookup handle).isSome then throw (.flaw ⟨.secondHandle, p⟩ p)
      else
        skip
        directives bound versioned ((handle, stem) :: handles)
    | _ => return handles

/-- Whether a token starts or ends a document. -/
def Token.isBoundary : Token → Bool
  | directive _ | documentStart | documentEnd => true
  | _ => false

/-- Reads the first document, which has a start mark if it has directives, up to the mark of its end
or to what follows it. -/
def document (text : List (Placed Token)) : Builder Unit := do
  match ← token with
  | none => return
  | some (.directive _) | some .documentStart =>
    let handles ← directives text false []
    let p ← place
    if ← took .documentStart then
      if (← token).all Token.isBoundary then writeEmpty
      else node (handles ++ standardHandles) text true false
    else refuse .noDocumentStart p
  | some _ => node standardHandles text true false
  let _ ← took .documentEnd

/-- Whether anything but marks of the end of a document is left. -/
def Source.goesOn (s : Source) : Bool :=
  !(s.tokens.all (·.value = .documentEnd) && s.rest.isOk)

/-- The first document of a text. -/
def Document.ofText (s : String) : Document :=
  let text := Tokens.ofText s
  let (result, source) := (document text.items).run.run ⟨text.items, text.rest, [], []⟩
  let problem? : Option Problem :=
    match result with
    | .ok () => none
    | .error problem => some problem
  ⟨source.events.reverse, problem?, source.goesOn⟩

end CouplingMap.Yaml
