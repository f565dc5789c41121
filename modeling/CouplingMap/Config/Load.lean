import CouplingMap.Config.Basic
import CouplingMap.Text.Numeral
import CouplingMap.Yaml.Decoder

/-!
# Loading the configuration

Settings come from a file, then from environment variables, and the output format at last from an
option. The settings are checked after the file, after the variables and after the option.

* `Config.Entries`: what a file says.
* `Config.ofText`: the settings of a file, with defaults for what it leaves out.
* `Config.override`: the settings with those that the environment variables change.
* `Config.load`, `Config.settle`: all sources together.
-/

namespace CouplingMap.Config

/-! ## The file -/

open Yaml (Decoder)

/-- What a file says about logging. -/
structure LoggingEntries where
  level : Option String
  format : Option String
deriving DecidableEq

/-- What a file says about results. -/
structure OutputEntries where
  format : Option String
  pretty : Option Bool
deriving DecidableEq

/-- What a file says about the limits of analyses. -/
structure AnalysisEntries where
  maxLineSearchNodes : Option Nat
deriving DecidableEq

/-- What a file says. -/
structure Entries where
  logging : Option LoggingEntries
  output : Option OutputEntries
  analysis : Option AnalysisEntries
deriving DecidableEq

/-- Reads the group of logging. -/
def loggingGroup : Decoder LoggingEntries :=
  Decoder.mapping "struct LoggingConfig" (fun s key =>
    match key with
    | "level" => .once s.level (Decoder.text "a string") fun v => { s with level := some v }
    | "format" => .once s.format (Decoder.text "a string") fun v => { s with format := some v }
    | _ => .unknown) ⟨none, none⟩

/-- Reads the group of results. -/
def outputGroup : Decoder OutputEntries :=
  Decoder.mapping "struct OutputConfig" (fun s key =>
    match key with
    | "format" => .once s.format (Decoder.text "a string") fun v => { s with format := some v }
    | "pretty" => .once s.pretty Decoder.truth fun v => { s with pretty := some v }
    | _ => .unknown) ⟨none, none⟩

/-- Reads the group of analyses. -/
def analysisGroup : Decoder AnalysisEntries :=
  Decoder.mapping "struct AnalysisConfig" (fun s key =>
    match key with
    | "max_line_search_nodes" =>
      .once s.maxLineSearchNodes Decoder.natural fun v => { s with maxLineSearchNodes := some v }
    | _ => .unknown) ⟨none⟩

/-- Reads all groups. -/
def entries : Decoder Entries :=
  Decoder.mapping "struct CliConfig" (fun s key =>
    match key with
    | "logging" => .once s.logging loggingGroup fun g => { s with logging := some g }
    | "output" => .once s.output outputGroup fun g => { s with output := some g }
    | "analysis" => .once s.analysis analysisGroup fun g => { s with analysis := some g }
    | _ => .unknown) ⟨none, none, none⟩

/-- The settings of a file, with the defaults for what it leaves out. -/
def Entries.settings (e : Entries) : Config :=
  { logging :=
      { level := (e.logging.bind LoggingEntries.level).getD default.logging.level
        format := (e.logging.bind LoggingEntries.format).getD default.logging.format }
    output :=
      { format := (e.output.bind OutputEntries.format).getD default.output.format
        pretty := (e.output.bind OutputEntries.pretty).getD default.output.pretty }
    analysis :=
      { maxLineSearchNodes :=
          (e.analysis.bind AnalysisEntries.maxLineSearchNodes).getD
            default.analysis.maxLineSearchNodes } }

/-- The settings of a file. -/
def ofText (s : String) : Except ConfigError Config :=
  match (Yaml.Document.ofText s).decode entries with
  | .ok e => e.settings.check
  | .error problem => .error (.malformed problem)

/-! ## The environment -/

/-- The values of environment variables, by name. -/
abbrev Environment := String → Option String

/-- What the names of the variables of this program start with. -/
def variableStem : String := "ARVAK_ARCH_"

/-- The variable with the settings file. -/
def fileVariable : String := variableStem ++ "CONFIG"

/-- A variable of this program. -/
def envValue? (env : Environment) (name : String) : Option String := env (variableStem ++ name)

/-- The truth value of a variable. -/
def variableTruth? (s : String) : Option Bool :=
  if s = "true" then some true else if s = "false" then some false else none

/-- The number of a variable, if it fits 64 bits. -/
def variableNumber? (s : String) : Option Nat := Text.bounded? UInt64.size s.toList

/-- The settings with those that the variables change. A truth value or a number that cannot be
read changes nothing. -/
def override (env : Environment) (c : Config) : Config :=
  let get := envValue? env
  { logging :=
      { level := (get "LOG_LEVEL").getD c.logging.level
        format := (get "LOG_FORMAT").getD c.logging.format }
    output :=
      { format := (get "OUTPUT_FORMAT").getD c.output.format
        pretty := ((get "OUTPUT_PRETTY").bind variableTruth?).getD c.output.pretty }
    analysis :=
      { maxLineSearchNodes :=
          ((get "MAX_LINE_SEARCH_NODES").bind variableNumber?).getD
            c.analysis.maxLineSearchNodes } }

/-! ## All sources -/

/-- The settings of a file, if one is named, and of the variables. The content of the file is
given, or what keeps it from being read. -/
def load (file : Option (Except String String)) (env : Environment) :
    Except ConfigError Config := do
  let c ←
    match file with
    | none => .ok default
    | some (.error problem) => .error (.unreadable problem)
    | some (.ok text) => ofText text
  (c.override env).check

/-- The settings with the output format that an option gives. -/
def settle (file : Option (Except String String)) (env : Environment) (format : Option String) :
    Except ConfigError Config := do
  let c ← load file env
  match format with
  | none => .ok c
  | some f => check { c with output := { c.output with format := f } }

end CouplingMap.Config
