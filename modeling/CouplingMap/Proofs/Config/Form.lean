import CouplingMap.Config.Load
import CouplingMap.Proofs.Yaml.Form

/-!
# What a settings file says

The form of a settings file tells what its groups say of each setting, apart from how the file is
decoded: keys that are not known do not matter, known ones occur at most once, and a group without
entries may be left empty.

* `LoggingForm`, `OutputForm`, `AnalysisForm`: what a group says.
* `Form`: what a document says.
* `decode_entries_eq_ok_iff`: a text is decoded just if it has the form of some settings.
-/

namespace CouplingMap.Config

open Yaml Yaml.Decoder

variable {d : Document} {e : Entries}

/-! ## Groups -/

/-- What a node says about logging. -/
def LoggingForm (d : Document) (es : Events) (g : LoggingEntries) : Prop :=
  ∃ ms, d.IsMapping es ms ∧ Given "level" d.IsText ms g.level ∧
    Given "format" d.IsText ms g.format

/-- What a node says about results. -/
def OutputForm (d : Document) (es : Events) (g : OutputEntries) : Prop :=
  ∃ ms, d.IsMapping es ms ∧ Given "format" d.IsText ms g.format ∧
    Given "pretty" d.IsTruth ms g.pretty

/-- What a node says about the limits of analyses. -/
def AnalysisForm (d : Document) (es : Events) (g : AnalysisEntries) : Prop :=
  ∃ ms, d.IsMapping es ms ∧ Given "max_line_search_nodes" d.IsNatural ms g.maxLineSearchNodes

theorem accepts_loggingGroup (hd : d.Whole) : loggingGroup.Accepts d (LoggingForm d) := by
  let parts (s : LoggingEntries) := (s.level, s.format)
  have hparts : Function.Bijective parts :=
    ⟨fun ⟨_, _⟩ ⟨_, _⟩ h => by simpa [parts] using h, fun ⟨a, b⟩ => ⟨⟨a, b⟩, rfl⟩⟩
  refine accepts_record hd _ hparts ⟨none, none⟩
    (fun ms p => steps_prod.trans (and_congr steps_column steps_column)) fun s key => ?_
  obtain ⟨level, format⟩ := s
  split
  · refine (accepts_once (accepts_text hd _)).congr fun es ⟨level', format'⟩ => ?_
    simp only [parts, column_self, column_of_ne (by decide : "level" ≠ "format")]
    grind
  · refine (accepts_once (accepts_text hd _)).congr fun es ⟨level', format'⟩ => ?_
    simp only [parts, column_self, column_of_ne (by decide : "format" ≠ "level")]
    grind
  · rename_i hlevel hformat
    rintro es ⟨level', format'⟩
    simp [parts, column_of_ne hlevel, column_of_ne hformat]

theorem accepts_outputGroup (hd : d.Whole) : outputGroup.Accepts d (OutputForm d) := by
  let parts (s : OutputEntries) := (s.format, s.pretty)
  have hparts : Function.Bijective parts :=
    ⟨fun ⟨_, _⟩ ⟨_, _⟩ h => by simpa [parts] using h, fun ⟨a, b⟩ => ⟨⟨a, b⟩, rfl⟩⟩
  refine accepts_record hd _ hparts ⟨none, none⟩
    (fun ms p => steps_prod.trans (and_congr steps_column steps_column)) fun s key => ?_
  obtain ⟨format, pretty⟩ := s
  split
  · refine (accepts_once (accepts_text hd _)).congr fun es ⟨format', pretty'⟩ => ?_
    simp only [parts, column_self, column_of_ne (by decide : "format" ≠ "pretty")]
    grind
  · refine (accepts_once (accepts_truth hd)).congr fun es ⟨format', pretty'⟩ => ?_
    simp only [parts, column_self, column_of_ne (by decide : "pretty" ≠ "format")]
    grind
  · rename_i hformat hpretty
    rintro es ⟨format', pretty'⟩
    simp [parts, column_of_ne hformat, column_of_ne hpretty]

theorem accepts_analysisGroup (hd : d.Whole) : analysisGroup.Accepts d (AnalysisForm d) := by
  have hparts : Function.Bijective AnalysisEntries.maxLineSearchNodes :=
    ⟨fun ⟨_⟩ ⟨_⟩ h => by simpa using h, fun a => ⟨⟨a⟩, rfl⟩⟩
  refine accepts_record hd _ hparts ⟨none⟩ (fun ms p => steps_column) fun s key => ?_
  obtain ⟨limit⟩ := s
  split
  · refine (accepts_once (accepts_natural hd)).congr fun es ⟨limit'⟩ => ?_
    simp only [column_self]
    grind
  · rename_i hlimit
    rintro es ⟨limit'⟩
    simp [column_of_ne hlimit]

/-! ## Files -/

/-- What a node says in all groups. -/
def GroupsForm (d : Document) (es : Events) (e : Entries) : Prop :=
  ∃ ms, d.IsMapping es ms ∧ Given "logging" (LoggingForm d) ms e.logging ∧
    Given "output" (OutputForm d) ms e.output ∧ Given "analysis" (AnalysisForm d) ms e.analysis

theorem accepts_entries (hd : d.Whole) : entries.Accepts d (GroupsForm d) := by
  let parts (s : Entries) := (s.logging, s.output, s.analysis)
  have hparts : Function.Bijective parts :=
    ⟨fun ⟨_, _, _⟩ ⟨_, _, _⟩ h => by simpa [parts] using h, fun ⟨a, b, c⟩ => ⟨⟨a, b, c⟩, rfl⟩⟩
  refine accepts_record hd _ hparts ⟨none, none, none⟩ (fun ms p => steps_prod.trans
    (and_congr steps_column (steps_prod.trans (and_congr steps_column steps_column)))) fun s key => ?_
  obtain ⟨logging, output, analysis⟩ := s
  split
  · refine (accepts_once (accepts_loggingGroup hd)).congr fun es ⟨_, _, _⟩ => ?_
    simp only [parts, column_self, column_of_ne (by decide : "logging" ≠ "output"),
      column_of_ne (by decide : "logging" ≠ "analysis")]
    grind
  · refine (accepts_once (accepts_outputGroup hd)).congr fun es ⟨_, _, _⟩ => ?_
    simp only [parts, column_self, column_of_ne (by decide : "output" ≠ "logging"),
      column_of_ne (by decide : "output" ≠ "analysis")]
    grind
  · refine (accepts_once (accepts_analysisGroup hd)).congr fun es ⟨_, _, _⟩ => ?_
    simp only [parts, column_self, column_of_ne (by decide : "analysis" ≠ "logging"),
      column_of_ne (by decide : "analysis" ≠ "output")]
    grind
  · rename_i hlogging houtput hanalysis
    rintro es ⟨_, _, _⟩
    simp [parts, column_of_ne hlogging, column_of_ne houtput, column_of_ne hanalysis]

/-- What a text says: it can be read, holds one document at most, and this says something in its
groups. -/
structure Form (text : String) (e : Entries) : Prop where
  readable : (Document.ofText text).problem = none
  single : (Document.ofText text).goesOn = false
  groups : GroupsForm (Document.ofText text) (Document.ofText text).root e

/-- A text is decoded just if it has the form of what it says. -/
theorem decode_entries_eq_ok_iff {text : String} {e : Entries} :
    (Document.ofText text).decode entries = .ok e ↔ Form text e := by
  rw [Document.decode_eq_ok_iff Document.whole_ofText accepts_entries]
  exact ⟨fun ⟨h, hs, hg⟩ => ⟨h, hs, hg⟩, fun h => ⟨h.readable, h.single, h.groups⟩⟩

/-- An alias stands for the node with its anchor, and other keys do not matter. -/
example : (Document.ofText "logging: {level: &a info, x: []}\noutput: {format: *a}\n").decode
    entries = .ok ⟨some ⟨some "info", none⟩, some ⟨some "info", none⟩, none⟩ := by cbv

end CouplingMap.Config
