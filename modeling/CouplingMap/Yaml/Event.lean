import CouplingMap.Yaml.Token

/-!
# Events

A document is a list of events: a scalar is one event, and a collection lies between an opening and
a closing one. An anchor marks a node so that an alias can stand for it; anchors are known by
numbers here.

* `Event`: the events.
* `Document`: the events of the first document of a text, and what follows them.
* `Document.target`: the events from the node on that an alias stands for.
-/

namespace CouplingMap.Yaml

/-- A scalar: its text, how it is written and its tag in full, if it has one. -/
structure Scalar where
  text : List Char
  style : Style
  tag : Option (List Char)
deriving DecidableEq

/-- The scalar that stands for nothing. -/
def Scalar.empty : Scalar := ⟨[], .plain, none⟩

/-- A part of a document. -/
inductive Event where
  | aliasOf (anchor : Nat)
  | scalar (anchor : Option Nat) (s : Scalar)
  | openSequence (anchor : Option Nat)
  | closeSequence
  | openMapping (anchor : Option Nat)
  | closeMapping
deriving DecidableEq

/-- The anchor of the node that starts with an event. -/
def Event.anchor? : Event → Option Nat
  | scalar a _ | openSequence a | openMapping a => a
  | aliasOf _ | closeSequence | closeMapping => none

/-- The number of collections that are open after an event. -/
def Event.depthAfter (depth : Nat) : Event → Nat
  | openSequence _ | openMapping _ => depth + 1
  | closeSequence | closeMapping => depth - 1
  | aliasOf _ | scalar .. => depth

/-- A list of events with their places. -/
abbrev Events := List (Placed Event)

/-- The last part of a list that starts with an item of some kind. -/
def lastFrom {α : Type} (p : α → Bool) : List α → Option (List α)
  | [] => none
  | a :: as => (lastFrom p as).or (if p a then some (a :: as) else none)

/-- The first document of a text. -/
structure Document where
  /-- The events, as far as the text can be read. There are none in a text without documents. -/
  events : Events
  /-- What keeps the rest of the document from being read. -/
  problem : Option Problem
  /-- Whether another document follows, or something that cannot be read. -/
  goesOn : Bool

/-- The events from the node on that an alias stands for: the last node with its anchor. -/
def Document.target (d : Document) (anchor : Nat) : Events :=
  (lastFrom (fun e => e.value.anchor? = some anchor) d.events).getD []

end CouplingMap.Yaml
