-- SUMMARY: What users may choose: preferences for the analyzer and for logging, and their defaults from the environment.
import PipeQuery.Settings.Environment

/-! # Preferences

Every preference has a variable of the environment that sets its default. -/

namespace PipeQuery

/-! ## Analyzer -/

/-- Preferences for the analyzer. -/
structure LexicalPreferences where
  /-- Whether tokens are counted per mode. -/
  collectDetailedMetrics : Bool
  /-- Whether whitespace and comments are counted. -/
  includeHiddenInCounts : Bool
  /-- Whether unknown input is logged. -/
  logUnrecognizedInput : Bool
  /-- Whether log messages about unknown input tell where and what it is. -/
  includePositionInErrors : Bool
  /-- Whether changes of mode are logged. -/
  traceModeTransitions : Bool
  deriving DecidableEq, Repr

/-- The preferences that an environment sets. -/
def LexicalPreferences.ofEnvironment (env : Environment) : LexicalPreferences where
  collectDetailedMetrics := env.flag "ESQL_LEXICAL_DETAILED_METRICS" true
  includeHiddenInCounts := env.flag "ESQL_LEXICAL_INCLUDE_HIDDEN" false
  logUnrecognizedInput := env.flag "ESQL_LEXICAL_LOG_UNRECOGNIZED" true
  includePositionInErrors := env.flag "ESQL_LEXICAL_INCLUDE_POSITIONS" true
  traceModeTransitions := env.flag "ESQL_LEXICAL_TRACE_MODES" false

/-! ## Logging -/

/-- Preferences for logging. -/
structure LoggingPreferences where
  /-- Whether consoles print JSON lines instead of plain text. -/
  useStructuredLogging : Bool
  /-- Whether anything is printed at all. -/
  enableConsoleLogging : Bool
  /-- The least important level that is logged. -/
  minLogLevel : Level
  /-- Whether the throughput of every analyzed query is logged. -/
  logPerformanceEvents : Bool
  /-- Whether security events are logged whatever the level. -/
  logSecurityMetrics : Bool
  deriving DecidableEq, Repr

/-- The preferences that an environment sets. -/
def LoggingPreferences.ofEnvironment (env : Environment) : LoggingPreferences where
  useStructuredLogging := env.flag "ESQL_LOGGING_USE_STRUCTURED" false
  enableConsoleLogging := env.flag "ESQL_LOGGING_ENABLE_CONSOLE" false
  minLogLevel := env.level "ESQL_LOGGING_MIN_LEVEL" .info
  logPerformanceEvents := env.flag "ESQL_LOGGING_LOG_PERFORMANCE" true
  logSecurityMetrics := env.flag "ESQL_LOGGING_LOG_SECURITY" true

/-! ## Both -/

/-- The preferences for every part of the library. -/
structure Preferences where
  lexical : LexicalPreferences
  logging : LoggingPreferences
  deriving DecidableEq, Repr

/-- The preferences that an environment sets. -/
def Preferences.ofEnvironment (env : Environment) : Preferences where
  lexical := .ofEnvironment env
  logging := .ofEnvironment env

end PipeQuery
