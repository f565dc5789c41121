import CouplingMap.Device.Description
import CouplingMap.Proofs.Json.Agreement

/-!
# Texts and values describe the same devices

* `Description.agrees_decoder`: descriptions are decoded from a text as from its value.
* `Device.ofText_ofJson_agree`: devices, and the rules of the graph that are broken.
-/

namespace CouplingMap

open Json

theorem Node.agrees_decoder : Node.decoder.Agrees :=
  (Decoder.agrees_string.pair _ _ Decoder.agrees_uint32.list).check _

namespace Description

theorem agrees_linkDecoder : linkDecoder.Agrees := by
  apply Decoder.Agrees.map
  apply Decoder.Agrees.record
  · decide
  · exact Node.agrees_decoder.pair _ _ Node.agrees_decoder
  · exact Decoder.agrees_double

theorem agrees_decoder : decoder.Agrees := by
  apply Decoder.Agrees.map
  apply Decoder.Agrees.record
  · decide
  · exact Node.agrees_decoder.list
  · exact agrees_linkDecoder.list.orNull

end Description

namespace Device

/-- A text that reads as a value without repeated names, and the value, describe the same device if
one of them describes any, with the same nodes and connections in the same order. If one of them
breaks a rule of the graph, then the other breaks the same rule. -/
theorem ofText_ofJson_agree (t : String) (v : Json) (hread : Json.read t = .ok v)
    (hdistinct : v.Distinct) :
    (∀ d, ofText t = .ok d ↔ ofJson v = .ok d) ∧
    ∀ e, ofText t = .error (.device e) ↔ ofJson v = .error (.device e) := by
  have hagree (D : Description) :
      Description.decoder.ofText t = .ok D ↔ Description.decoder.fromValue v = .ok D :=
    Description.agrees_decoder.ofText_eq_ok hread hdistinct
  unfold ofText ofJson
  cases hvalue : Description.decoder.fromValue v with
  | ok D =>
    rw [(hagree D).2 hvalue]
    exact ⟨fun d => Iff.rfl, fun e => Iff.rfl⟩
  | error p =>
    cases htext : Description.decoder.ofText t with
    | ok D =>
      have := hvalue.symm.trans ((hagree D).1 htext)
      contradiction
    | error q => exact ⟨fun d => ⟨nofun, nofun⟩, fun e => ⟨nofun, nofun⟩⟩

/-- A description whose links come first, with a link as a list and a member that is passed over. -/
def shuffledText : String :=
  "\x7b\"note\": \x7b\"a\": [null, -5, \"\\ud83d\\ude00\"]\x7d, \"links\": [[[[\"q\", [0]], " ++
    "[\"q\", [1, 2]]], 1]], \"nodes\": [[\"q\", [0]], [\"q\", [1, 2]]]\x7d"

/-- The value of this text. -/
def shuffledJson : Json :=
  let source : Json := .list [.string "q", .list [.number (.integer 0)]]
  let target : Json := .list [.string "q", .list [.number (.integer 1), .number (.integer 2)]]
  .object [("note", .object [("a", .list [.null, .number (.integer (-5)), .string "😀"])]),
    ("links", .list [.list [.list [source, target], .number (.integer 1)]]),
    ("nodes", .list [source, target])]

-- Reading is computed on the characters: a text is stored as bytes.
theorem read_shuffledText : Json.read shuffledText = .ok shuffledJson := by
  have hchars : shuffledText.toList = [
      '\x7b', '"', 'n', 'o', 't', 'e', '"', ':', ' ', '\x7b', '"', 'a', '"', ':', ' ', '[', 'n',
      'u', 'l', 'l', ',', ' ', '-', '5', ',', ' ', '"', '\\', 'u', 'd', '8', '3', 'd', '\\', 'u',
      'd', 'e', '0', '0', '"', ']', '\x7d', ',', ' ', '"', 'l', 'i', 'n', 'k', 's', '"', ':', ' ',
      '[', '[', '[', '[', '"', 'q', '"', ',', ' ', '[', '0', ']', ']', ',', ' ', '[', '"', 'q',
      '"', ',', ' ', '[', '1', ',', ' ', '2', ']', ']', ']', ',', ' ', '1', ']', ']', ',', ' ',
      '"', 'n', 'o', 'd', 'e', 's', '"', ':', ' ', '[', '[', '"', 'q', '"', ',', ' ', '[', '0',
      ']', ']', ',', ' ', '[', '"', 'q', '"', ',', ' ', '[', '1', ',', ' ', '2', ']', ']', ']',
      '\x7d'] := by decide +kernel
  rw [Json.read, hchars]
  rfl

theorem distinct_shuffledJson : shuffledJson.Distinct := by
  simp [shuffledJson]

theorem ofText_ofJson_agree_shuffled :
    Json.read shuffledText = .ok shuffledJson ∧ shuffledJson.Distinct ∧
    (∀ d, ofText shuffledText = .ok d ↔ ofJson shuffledJson = .ok d) ∧
    (∀ e, ofText shuffledText = .error (.device e) ↔ ofJson shuffledJson = .error (.device e)) ∧
    ∃ d, ofText shuffledText = .ok d ∧ ofJson shuffledJson = .ok d := by
  have hagree :=
    ofText_ofJson_agree shuffledText shuffledJson read_shuffledText distinct_shuffledJson
  have hsome : (ofText shuffledText).toOption.isSome := by decide +kernel
  refine ⟨read_shuffledText, distinct_shuffledJson, hagree.1, hagree.2, ?_⟩
  cases hd : ofText shuffledText with
  | ok d => exact ⟨d, rfl, (hagree.1 d).1 hd⟩
  | error e => simp [hd, Except.toOption] at hsome

end Device

end CouplingMap
