import CouplingMap.Json.Mismatch
import CouplingMap.Json.Value

/-!
# Decoders

A decoder gets a value of some type in two ways that follow one description: from a text, read
once from left to right up to the first problem, and from a JSON value that has been read before.

* `Decoder`: the two ways.
* `Decoder.uint32`, `Decoder.double`, `Decoder.string`: single values.
* `Decoder.list`, `Decoder.pair`, `Decoder.orNull`, `Decoder.check`: decoders made of others.
* `Decoder.record`: two named fields, written as an object or as a list.
-/

namespace CouplingMap.Json

/-- A way to get an `α` from a text and from a value. -/
structure Decoder (α : Type) where
  fromText : Reader α
  fromValue : Json → Except Mismatch α

namespace Decoder

variable {α β : Type}

/-! ## Single values -/

/-- The problem of a reader with a value of another kind. The value is read as far as is needed
to tell its kind, and a problem met on the way comes first. -/
def otherKind (cs : List Char) : ReadError :=
  let after {γ : Type} : Except ReadError γ → ReadError
    | .error e => e
    | .ok _ => .unfit
  match cs with
  | [] => .ended
  | c :: rest =>
    if c = 'n' then after (word nullTail rest)
    else if c = 't' then after (word trueTail rest)
    else if c = 'f' then after (word falseTail rest)
    else if c = '"' then after (Quoted.read rest)
    else if Numeral.starts c then after (Numeral.read (c :: rest))
    else if c = '[' ∨ c = '{' then .unfit
    else .malformed

/-- Numbers of the kind that `accept` makes something of. -/
def number (expected : String) (accept : Number → Except Mismatch α) : Decoder α where
  fromText cs :=
    match skipSpace cs with
    | [] => .error .ended
    | c :: rest =>
      if Numeral.starts c then do
        let (n, rest) ← Numeral.read (c :: rest)
        match accept n with
        | .ok a => .ok (a, rest)
        | .error _ => .error .unfit
      else .error (otherKind (c :: rest))
  fromValue
    | .number n => accept n
    | v => .error (.wrongKind v expected)

/-- Unsigned integers of 32 bits. A double is refused, even if it is a whole number. -/
def uint32 : Decoder UInt32 :=
  number "u32" fun n =>
    match n with
    | .integer i =>
      if 0 ≤ i ∧ i < UInt32.size then .ok (UInt32.ofNat i.toNat)
      else .error (.outOfRange i "u32")
    | .double _ => .error (.wrongKind (.number n) "u32")

/-- Numbers of any class, as doubles. -/
def double : Decoder Binary64 := number "f64" fun n => .ok n.toBinary64

/-- Strings. -/
def string : Decoder String where
  fromText cs :=
    match skipSpace cs with
    | [] => .error .ended
    | c :: rest => if c = '"' then Quoted.read rest else .error (otherKind (c :: rest))
  fromValue
    | .string s => .ok s
    | v => .error (.wrongKind v "a string")

/-! ## Lists and pairs -/

/-- The reader of a part of a larger value. -/
def part (d : Decoder α) : Reader α := fun cs => (d.fromText cs).mapError ReadError.placed

/-- Reads an opening bracket and goes on with `inner`. -/
def opened (inner : Reader α) : Reader α := fun cs =>
  match skipSpace cs with
  | [] => .error .ended
  | c :: rest => if c = '[' then inner rest else .error (otherKind (c :: rest))

/-- Decodes every item of a list, in order. -/
def itemValues (d : Decoder α) : List Json → Except Mismatch (List α)
  | [] => .ok []
  | v :: vs => do
    let a ← d.fromValue v
    let as ← itemValues d vs
    .ok (a :: as)

/-- Lists of any length. -/
def list (d : Decoder α) : Decoder (List α) where
  fromText := opened (items d.part)
  fromValue
    | .list vs => d.itemValues vs
    | v => .error (.wrongKind v "a sequence")

/-- Reads an item of an open list; a list that ends before it is too short. -/
def itemText (d : Decoder α) (first : Bool) : Reader α := fun cs => do
  match ← nextItem first cs with
  | .close _ => .error .unfit
  | .more cs => d.part cs

/-- The wording for a list of two items. -/
def twoElements (title : String) : String := title ++ " with 2 elements"

/-- A list that goes on after its last item. -/
def surplus (length : Nat) : Mismatch := .wrongLength length "fewer elements in array"

/-- Lists of two items. The titles name the pair in messages on its kind and on its length. -/
def pair (title lengthTitle : String) (d : Decoder α) (e : Decoder β) : Decoder (α × β) where
  fromText := opened fun cs => do
    let (a, cs) ← d.itemText true cs
    let (b, cs) ← e.itemText false cs
    let ((), cs) ← closeList cs
    .ok ((a, b), cs)
  fromValue
    | .list vs =>
      match vs with
      | [] => .error (.wrongLength 0 lengthTitle)
      | [v] => do
        let _ ← d.fromValue v
        .error (.wrongLength 1 lengthTitle)
      | v :: w :: rest => do
        let a ← d.fromValue v
        let b ← e.fromValue w
        if rest.isEmpty then .ok (a, b) else .error (surplus (rest.length + 2))
    | v => .error (.wrongKind v title)

/-- Either null or a value. -/
def orNull (d : Decoder α) : Decoder (Option α) where
  fromText cs :=
    match skipSpace cs with
    | [] => .error .ended
    | c :: rest =>
      if c = 'n' then (word nullTail rest).map fun r => (none, r.2)
      else (d.fromText (c :: rest)).map fun r => (some r.1, r.2)
  fromValue
    | .null => .ok none
    | v => (d.fromValue v).map some

/-- A decoder followed by a rule of the type, which may refuse with a message. -/
def check (rule : α → Except String β) (d : Decoder α) : Decoder β where
  fromText cs := do
    let (a, cs) ← d.fromText cs
    match rule a with
    | .ok b => .ok (b, cs)
    | .error message => .error (.ruled message)
  fromValue v := do
    match rule (← d.fromValue v) with
    | .ok b => .ok b
    | .error message => .error (.ruled message)

/-- A decoder followed by a function. -/
def map (f : α → β) (d : Decoder α) : Decoder β where
  fromText cs := (d.fromText cs).map fun r => (f r.1, r.2)
  fromValue v := (d.fromValue v).map f

end Decoder

/-! ## Records -/

/-- A named part of a record. It may be left out if there is a value for this case. -/
structure Field (α : Type) where
  name : String
  decoder : Decoder α
  absent : Option α

namespace Field

variable {α β : Type}

/-- Takes the value of a field from the members of an object, if the field is among them. -/
def find (f : Field α) (members : List (String × Json)) : Except Mismatch (Option α) :=
  match lookup f.name members with
  | none => .ok none
  | some v => (f.decoder.fromValue v).map some

/-- The value of a field after all members have been seen. -/
def settle {ε : Type} (f : Field α) (problem : ε) (found : Option α) : Except ε α :=
  match found.or f.absent with
  | some a => .ok a
  | none => .error problem

/-- Reads a field as an item of an open list. The list may end before a field that may be left
out; `none` then stands for the text after the list. -/
def itemText (f : Field α) (first : Bool) : List Char → Except ReadError (α × Bool × List Char) :=
  fun cs => do
    match ← nextItem first cs with
    | .close rest => (f.settle ReadError.unfit none).map fun a => (a, true, rest)
    | .more cs => (f.decoder.part cs).map fun r => (r.1, false, r.2)

end Field

namespace Decoder

variable {α β : Type}

/-- Reads the two fields of a record from an open list. -/
def recordItems (f : Field α) (g : Field β) : Reader (α × β) := fun cs => do
  let (a, ended, cs) ← f.itemText true cs
  if ended then (g.settle ReadError.unfit none).map fun b => ((a, b), cs)
  else
    let (b, ended, cs) ← g.itemText false cs
    if ended then .ok ((a, b), cs)
    else
      let ((), cs) ← closeList cs
      .ok ((a, b), cs)

/-- Reads what follows the name of a member. A field may come once; the value of any other member
is passed over. -/
def recordMember (f : Field α) (g : Field β) (found : Option α × Option β) (name : String) :
    Reader (Option α × Option β) := fun cs =>
  if name = f.name then
    if found.1.isSome then .error .unfit
    else do
      let ((), cs) ← colon cs
      let (a, cs) ← f.decoder.part cs
      .ok ((some a, found.2), cs)
  else if name = g.name then
    if found.2.isSome then .error .unfit
    else do
      let ((), cs) ← colon cs
      let (b, cs) ← g.decoder.part cs
      .ok ((found.1, some b), cs)
  else do
    let ((), cs) ← colon cs
    let ((), cs) ← skip cs
    .ok (found, cs)

/-- The two fields among the members of an object. Members are visited in the order of their
names, so of two bad fields the one with the smaller name is reported. -/
def recordFields (f : Field α) (g : Field β) (members : List (String × Json)) :
    Except Mismatch (Option α × Option β) :=
  if f.name < g.name then do
    let a ← f.find members
    let b ← g.find members
    .ok (a, b)
  else do
    let b ← g.find members
    let a ← f.find members
    .ok (a, b)

/-- The two fields as the items of a list. -/
def recordValues (title : String) (f : Field α) (g : Field β) :
    List Json → Except Mismatch (α × β)
  | [] => do
    let short := Mismatch.wrongLength 0 (twoElements title)
    let a ← f.settle short none
    let b ← g.settle short none
    .ok (a, b)
  | [v] => do
    let a ← f.decoder.fromValue v
    let b ← g.settle (.wrongLength 1 (twoElements title)) none
    .ok (a, b)
  | v :: w :: rest => do
    let a ← f.decoder.fromValue v
    let b ← g.decoder.fromValue w
    if rest.isEmpty then .ok (a, b) else .error (surplus (rest.length + 2))

/-- Two named fields: an object with these members among others, or a list of the fields in
order. -/
def record (title : String) (f : Field α) (g : Field β) : Decoder (α × β) where
  fromText cs :=
    match skipSpace cs with
    | [] => .error .ended
    | c :: rest =>
      if c = '[' then recordItems f g rest
      else if c = '{' then do
        let (found, rest) ← members Quoted.read (recordMember f g) (none, none) rest
        let a ← f.settle .unfit found.1
        let b ← g.settle .unfit found.2
        .ok ((a, b), rest)
      else .error (otherKind (c :: rest))
  fromValue
    | .list vs => recordValues title f g vs
    | .object ms => do
      let found ← recordFields f g ms
      let a ← f.settle (.missingField f.name) found.1
      let b ← g.settle (.missingField g.name) found.2
      .ok (a, b)
    | v => .error (.wrongKind v title)

/-- Decodes a whole text. -/
def ofText (d : Decoder α) (text : String) : Except ReadError α :=
  Reader.whole d.fromText text.toList

end Decoder

end CouplingMap.Json
