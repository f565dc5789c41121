import CouplingMap.Yaml.Document
import CouplingMap.Yaml.Kind

/-!
# Decoders

A decoder gets a value of some type from the events of a document, read from left to right up to the
first problem. What it does not ask for is passed over.

* `Decoder`: a reader of events that knows the document and the keys that lead to them.
* `Decoder.scalar`, `Decoder.text`, `Decoder.truth`, `Decoder.natural`: single values.
* `Decoder.mapping`: the entries of a mapping.
* `Document.decode`: the value of a text with one document.
-/

namespace CouplingMap.Yaml

/-- A reader of the events of a document, to which some keys lead. -/
abbrev Decoder (α : Type) := Document → List String → Events → Except Problem (α × Events)

/-- Why the events of a document are over too early. -/
def Document.cut (d : Document) : Problem := d.problem.getD .ended

namespace Decoder

variable {α β σ : Type}

/-- A decoder whose value is changed by a function. -/
def map (f : α → β) (decoder : Decoder α) : Decoder β := fun d keys events =>
  (decoder d keys events).map fun r => (f r.1, r.2)

/-- Reads a node by its first event and the events after it. An alias is read as the node that it
stands for, and passed over. -/
def ofNode (read : Placed Event → Decoder α) : Decoder α := fun d keys events =>
  match events with
  | [] => .error d.cut
  | e :: rest =>
    match e.value with
    | .aliasOf a =>
      match d.target a with
      | [] => .error d.cut
      | e :: inner => (read e d keys inner).map fun r => (r.1, rest)
    | _ => read e d keys rest

/-- Refuses a node, given what was asked for. -/
def refuse (e : Placed Event) (expected : String) : Decoder α := fun _ keys _ =>
  let m : Mismatch :=
    match e.value with
    | .scalar _ s => s.mismatch expected
    | .openMapping _ => .wrongKind "map" expected
    | _ => .wrongKind "sequence" expected
  .error (.mismatch m keys e.place)

/-! ## Scalars -/

/-- Scalars that `read?` makes something of. -/
def scalar (expected : String) (read? : Scalar → Option α) : Decoder α :=
  ofNode fun e d keys rest =>
    match e.value with
    | .scalar _ s =>
      match read? s with
      | some a => .ok (a, rest)
      | none => refuse e expected d keys rest
    | _ => refuse e expected d keys rest

/-- The text of a scalar of any kind. -/
def text (expected : String) : Decoder String :=
  scalar expected fun s => some (String.ofList s.text)

/-- Truth values. -/
def truth : Decoder Bool :=
  scalar "a boolean" fun s => if s.canBe "bool" then truth? s.text else none

/-- Natural numbers of 64 bits. -/
def natural : Decoder Nat :=
  scalar "usize" fun s =>
    if s.canBe "int" then (unsigned? s.text).filter (· < UInt64.size) else none

/-! ## Mappings -/

/-- Passes over a node, given the number of collections that are open. -/
def skipFrom (d : Document) : Nat → Events → Except Problem Events
  | _, [] => .error d.cut
  | depth, e :: rest =>
    let depth := e.value.depthAfter depth
    if depth = 0 then .ok rest else skipFrom d depth rest

/-- What is done with the value of a key, given what is known of the entries before it. -/
inductive Member (σ : Type) where
  /-- The key is not asked for. -/
  | unknown
  /-- The key has been read before. -/
  | repeated
  /-- The value is read. -/
  | known (decoder : Decoder σ)

/-- A key that may occur once: `found` is its value if it has been read. -/
def Member.once (found : Option α) (decoder : Decoder α) (put : α → σ) : Member σ :=
  if found.isSome then .repeated else .known (decoder.map put)

/-- The last step on the way to a value. A key that is an alias is not named. -/
def stepName (e : Event) (key : String) : String :=
  match e with
  | .aliasOf _ => "?"
  | _ => key

/-- Reads the entries of a mapping that starts at a place, up to its end. Every round takes an event
off the list that is at least as long as the document. -/
def entriesFrom (member : σ → String → Member σ) (start : Place) :
    Events → σ → Decoder σ
  | [], _, d, _, _ => .error d.cut
  | _ :: _, _, d, _, [] => .error d.cut
  | _ :: bound, s, d, keys, e :: events => do
    if e.value = .closeMapping then .ok (s, events)
    else
      let (key, events) ← text "field identifier" d keys (e :: events)
      match member s key with
      | .unknown =>
        let events ← skipFrom d 0 events
        entriesFrom member start bound s d keys events
      | .repeated => .error (.mismatch (.repeated key) keys start)
      | .known decoder =>
        let (s, events) ← decoder d (keys ++ [stepName e.value key]) events
        entriesFrom member start bound s d keys events

/-- Reads a mapping, with what is known before its first entry. A plain scalar without text is a
mapping without entries. -/
def mapping (expected : String) (member : σ → String → Member σ) (s : σ) : Decoder σ :=
  ofNode fun e d keys rest =>
    match e.value with
    | .openMapping _ => entriesFrom member e.place d.events s d keys rest
    | .scalar _ t =>
      if t.text = [] ∧ t.style = .plain then .ok (s, rest) else refuse e expected d keys rest
    | _ => refuse e expected d keys rest

end Decoder

/-- The value of a text with at most one document. A text without documents stands for nothing. What
is wrong with the value comes before what is wrong with the rest of the text. -/
def Document.decode {α : Type} (decoder : Decoder α) (d : Document) : Except Problem α := do
  let events :=
    if d.events = [] ∧ d.problem = none then [⟨.scalar none .empty, .first⟩] else d.events
  let (a, _) ← decoder d [] events
  match d.problem with
  | some problem => .error problem
  | none => if d.goesOn then .error .several else .ok a

end CouplingMap.Yaml
