import CouplingMap.Yaml.Problem

/-!
# Configuration

* `Config`: the settings, with their defaults.
* `Config.check`: the rules for the settings; the first one that is broken is reported, in the order
  log level, log format, output format, size limit.
-/

namespace CouplingMap

/-- The settings for logging. -/
structure Logging where
  level : String
  format : String
deriving DecidableEq

/-- The settings for results. -/
structure Output where
  format : String
  /-- Whether JSON is written over several lines. -/
  pretty : Bool
deriving DecidableEq

/-- Whether results are written as JSON. -/
def Output.isJson (o : Output) : Bool := o.format = "json"

/-- The limits of expensive analyses. -/
structure Analysis where
  /-- The size of the largest device on which lines are searched. -/
  maxLineSearchNodes : Nat
deriving DecidableEq

/-- All settings. -/
structure Config where
  logging : Logging
  output : Output
  analysis : Analysis
deriving DecidableEq

/-- A rule for settings that is broken. -/
inductive ConfigRule where
  | logLevel (value : String)
  | logFormat (value : String)
  | outputFormat (value : String)
  | lineSearchLimit
deriving DecidableEq

/-- Why a configuration is refused. -/
inductive ConfigError where
  /-- The file cannot be read. -/
  | unreadable (problem : String)
  /-- The text of the file has no settings in it. -/
  | malformed (problem : Yaml.Problem)
  /-- A setting breaks a rule. -/
  | invalid (rule : ConfigRule)
deriving DecidableEq

/-- The wording of a broken rule. -/
def ConfigRule.message : ConfigRule → String
  | .logLevel v => "Invalid log level: " ++ v
  | .logFormat v => "Invalid log format: " ++ v
  | .outputFormat v => "Invalid output format: " ++ v
  | .lineSearchLimit => "max_line_search_nodes must be greater than 0"

/-- The wording of a configuration error. -/
def ConfigError.message : ConfigError → String
  | .unreadable problem => "IO error: " ++ problem
  | .malformed problem => "Parse error: " ++ problem.message
  | .invalid rule => "Validation error: " ++ rule.message

namespace Config

/-- The settings when nothing is said. -/
def default : Config := ⟨⟨"warn", "console"⟩, ⟨"table", true⟩, ⟨512⟩⟩

/-- The log levels. -/
def logLevels : List String := ["trace", "debug", "info", "warn", "error"]

/-- The log formats. -/
def logFormats : List String := ["console", "json"]

/-- The formats of results. -/
def outputFormats : List String := ["table", "json"]

/-- The first rule that a configuration breaks. -/
def broken? (c : Config) : Option ConfigRule :=
  if c.logging.level ∉ logLevels then some (.logLevel c.logging.level)
  else if c.logging.format ∉ logFormats then some (.logFormat c.logging.format)
  else if c.output.format ∉ outputFormats then some (.outputFormat c.output.format)
  else if c.analysis.maxLineSearchNodes = 0 then some .lineSearchLimit
  else none

/-- A configuration that breaks no rule. -/
def check (c : Config) : Except ConfigError Config :=
  match c.broken? with
  | none => .ok c
  | some rule => .error (.invalid rule)

end Config

end CouplingMap
