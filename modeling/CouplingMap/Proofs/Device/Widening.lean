import CouplingMap.Device.Description
import CouplingMap.Proofs.Json.Coverage

/-!
# Texts of devices with further members

A text of a device may have members in the object of the device and in the objects of its links that
no field is named after. They do not matter, whatever their values are, how many there are and where
they stand.

* `Description.Widens`: what becomes of a text when further members are put into it.
* `Device.ofText_widens`: the text describes the same device. Every text of a device is in the
  relation.
-/

namespace CouplingMap

open Json

/-! ## Nodes -/

theorem Node.keeps_decoder : Node.decoder.Keeps Same :=
  (Decoder.keeps_string.pair_same _ _ Decoder.keeps_uint32.list_same).check _

theorem Node.covers_decoder : Node.decoder.Covers Same :=
  (Decoder.covers_string.pair_same _ _ Decoder.covers_uint32.list_same).check _

/-! ## Descriptions -/

namespace Description

/-- The text of a link becomes one with further members. -/
def LinkWidens : TextRel := Recorded "link" "weight" Same Same

/-- The text of a description becomes one with further members, in its own object and in those of
its links. -/
def Widens : TextRel := Recorded "nodes" "links" Same (Nullable fun _ => LinkWidens)

theorem keeps_linkDecoder : linkDecoder.Keeps LinkWidens := by
  apply Decoder.Keeps.map
  apply Decoder.Keeps.record
  · decide
  · exact Node.keeps_decoder.pair_same _ _ Node.keeps_decoder
  · exact Decoder.keeps_double

theorem covers_linkDecoder : linkDecoder.Covers LinkWidens := by
  apply Decoder.Covers.map
  apply Decoder.Covers.record
  · exact Node.covers_decoder.pair_same _ _ Node.covers_decoder
  · exact Decoder.covers_double

theorem keeps_decoder : decoder.Keeps Widens := by
  apply Decoder.Keeps.map
  apply Decoder.Keeps.record
  · decide
  · exact Node.keeps_decoder.list_same
  · exact keeps_linkDecoder.list.orNull

theorem covers_decoder : decoder.Covers Widens := by
  apply Decoder.Covers.map
  apply Decoder.Covers.record
  · exact Node.covers_decoder.list_same
  · exact covers_linkDecoder.list.orNull

end Description

namespace Device

/-- A whole text of a device becomes one with further members. -/
def TextWidens (t t' : String) : Prop := Surrounded Description.Widens t.toList t'.toList

/-- Members that no field is named after do not matter: a text with such members put into it
describes the same device, with the same nodes and connections in the same order and the same
weights. Every text of a device is related to itself, and so has a place for further members in
front of each of its members and of each closing bracket. -/
theorem ofText_widens {t : String} {d : Device} (h : ofText t = .ok d) :
    TextWidens t t ∧ ∀ t', TextWidens t t' → ofText t' = .ok d := by
  obtain ⟨D, hD, hdevice⟩ := bind_eq_ok.1 h
  rw [mapError_eq_ok] at hD
  refine ⟨Description.covers_decoder.ofText hD, fun t' ht' => ?_⟩
  have hD' := Description.keeps_decoder.ofText ht' hD
  exact bind_eq_ok.2 ⟨D, mapError_eq_ok.2 hD', hdevice⟩

/-- Two nodes. -/
def twoNodes : String := "[[\"q\",[0]],[\"q\",[1]]]"

/-- The text of two connected nodes. -/
def plainText : String :=
  "\x7b\"nodes\":[[\"q\",[0]],[\"q\",[1]]],\"links\":[\x7b\"link\":[[\"q\",[0]],[\"q\",[1]]]," ++
    "\"weight\":1\x7d]\x7d"

/-- The same with a member in front of the nodes, whose value has a number above all doubles and a
half of a surrogate pair, and a member behind the weight. -/
def notedText : String :=
  "\x7b\"note\":\x7b\"a\":[1e999,\"\\ud800\"]\x7d,\"nodes\":[[\"q\",[0]],[\"q\",[1]]],\"links\":" ++
    "[\x7b\"link\":[[\"q\",[0]],[\"q\",[1]]],\"weight\":1,\"links\":[[]]\x7d]\x7d"

theorem textWidens_noted : TextWidens plainText notedText := by
  have hopening {first : Bool} : Opening first (separator first) := by
    have hblanks : Opening first ([] ++ (separator first ++ [])) := .blanks Blank.nil Blank.nil
    rwa [List.append_nil] at hblanks
  have htwo : Same twoNodes.toList twoNodes.toList :=
    .text (.of_skip ⟨_, _, rfl, by decide⟩ (by decide +kernel))
  have hnote : ValueText "\x7b\"a\":[1e999,\"\\ud800\"]\x7d".toList :=
    .of_skip ⟨_, _, rfl, by decide⟩ (by decide +kernel)
  have hnested : ValueText "[[]]".toList := .of_skip ⟨_, _, rfl, by decide⟩ (by decide +kernel)
  have hone : Same ['1'] ['1'] := .text (.of_skip ⟨_, _, rfl, by decide⟩ (by decide +kernel))
  have hlink : Description.LinkWidens _ _ :=
    .object (.left hopening hopening (.of_read "link" "link\"".toList (by decide +kernel)) htwo
      (.right hopening hopening (.of_read "weight" "weight\"".toList (by decide +kernel)) hone
        (.further (by decide) (by decide) hopening
          (.of_read "links" "links\"".toList (by decide +kernel)) hnested
          (.close Blank.nil Blank.nil))))
  have hlinks : Nullable (fun _ => Description.LinkWidens) _ _ :=
    .list (.items (.item (hopening : Opening true _) hlink (.close Blank.nil)))
  have hdevice : Surrounded Description.Widens _ _ :=
    .value Blank.nil Blank.nil Blank.nil Blank.nil <|
      .object (.further (by decide) (by decide) hopening
        (.of_read "note" "note\"".toList (by decide +kernel)) hnote
        (.left hopening hopening (.of_read "nodes" "nodes\"".toList (by decide +kernel)) htwo
          (.right hopening hopening (.of_read "links" "links\"".toList (by decide +kernel)) hlinks
            (.close Blank.nil Blank.nil))))
  unfold TextWidens
  convert hdevice using 1 <;> decide +kernel

theorem ofText_widens_noted :
    ∃ d, ofText plainText = .ok d ∧ TextWidens plainText notedText ∧ ofText notedText = .ok d := by
  have hsome : (ofText plainText).toOption.isSome := by decide +kernel
  cases hd : ofText plainText with
  | ok d => exact ⟨d, rfl, textWidens_noted, (ofText_widens hd).2 _ textWidens_noted⟩
  | error e => simp [hd, Except.toOption] at hsome

end Device

end CouplingMap
