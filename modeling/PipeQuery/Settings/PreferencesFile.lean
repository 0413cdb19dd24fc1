-- SUMMARY: Preferences read from a TOML file, where what the file leaves out keeps its default.
import PipeQuery.Log.Code
import PipeQuery.Settings.Preferences
import PipeQuery.Toml.Format

/-! # Preference Files -/

namespace PipeQuery

/-- Why a file gives no preferences. -/
inductive ConfigError where
  | missing (path : String)
  /-- The text is not TOML, or has values of the wrong kind. -/
  | malformed
  deriving DecidableEq, Repr

namespace ConfigError

/-- The wording of a configuration error. -/
def message : ConfigError → String
  | .missing path =>
    s!"Failed to read configuration file {path}: No such file or directory (os error 2)"
  | .malformed => "Invalid runtime configuration"

def code (_ : ConfigError) : Code := .configurationError

end ConfigError

/-! ## Fields -/

section Fields

variable (F : SettingsFormat)

/-- A field that may be left out. -/
def SettingsFormat.optional? {α : Type} (read? : F.Value → Option α) (default : α) :
    Option F.Value → Option α
  | none => some default
  | some v => read? v

/-- A level, written as its word. -/
def Level.ofValue? (v : F.Value) : Option Level := (F.choice? v).bind Level.ofWord?

def LexicalPreferences.ofValue? (default : LexicalPreferences) (v : F.Value) :
    Option LexicalPreferences := do
  match ← F.fields? ["collect_detailed_metrics", "include_hidden_in_counts",
    "log_unrecognized_input", "include_position_in_errors", "trace_mode_transitions"] v with
  | [metrics, hidden, unrecognized, positions, transitions] =>
    return {
      collectDetailedMetrics := ← metrics |> F.optional? F.flag? default.collectDetailedMetrics
      includeHiddenInCounts := ← hidden |> F.optional? F.flag? default.includeHiddenInCounts
      logUnrecognizedInput := ← unrecognized |> F.optional? F.flag? default.logUnrecognizedInput
      includePositionInErrors := ←
        positions |> F.optional? F.flag? default.includePositionInErrors
      traceModeTransitions := ← transitions |> F.optional? F.flag? default.traceModeTransitions }
  | _ => none

def LoggingPreferences.ofValue? (default : LoggingPreferences) (v : F.Value) :
    Option LoggingPreferences := do
  match ← F.fields? ["use_structured_logging", "enable_console_logging", "min_log_level",
    "log_performance_events", "log_security_metrics"] v with
  | [structured, console, level, performance, security] =>
    return {
      useStructuredLogging := ← structured |> F.optional? F.flag? default.useStructuredLogging
      enableConsoleLogging := ← console |> F.optional? F.flag? default.enableConsoleLogging
      minLogLevel := ← level |> F.optional? (Level.ofValue? F) default.minLogLevel
      logPerformanceEvents := ← performance |> F.optional? F.flag? default.logPerformanceEvents
      logSecurityMetrics := ← security |> F.optional? F.flag? default.logSecurityMetrics }
  | _ => none

end Fields

/-! ## Files -/

namespace Preferences

def ofValue? (F : SettingsFormat) (default : Preferences) (file : F.Value) :
    Option Preferences := do
  match ← F.fields? ["lexical", "logging"] file with
  | [lexical, logging] =>
    return {
      lexical := ←
        lexical |> F.optional? (LexicalPreferences.ofValue? F default.lexical) default.lexical
      logging := ←
        logging |> F.optional? (LoggingPreferences.ofValue? F default.logging) default.logging }
  | _ => none

/-- The preferences that a text sets, with defaults from the environment. -/
def parseIn (F : SettingsFormat) (env : Environment) (text : String) :
    Except ConfigError Preferences :=
  match (F.parse? text).bind (ofValue? F (.ofEnvironment env)) with
  | some p => .ok p
  | none => .error .malformed

/-- The preferences that a TOML file sets, if there is one at the path. -/
def load (env : Environment) (path : String) (content? : Option String) :
    Except ConfigError Preferences :=
  match content? with
  | some text => parseIn Toml.settingsFormat env text
  | none => .error (.missing path)

end Preferences

end PipeQuery
