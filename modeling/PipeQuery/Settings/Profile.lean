-- SUMMARY: Build profiles: reading limits from a file, checking them against ceilings, and writing them as constants.
import PipeQuery.Path
import PipeQuery.Settings.Environment
import PipeQuery.Settings.Limits
import PipeQuery.Toml.Format

/-! # Build Profiles

A profile is a file with the limits of a build. Limits that no build may exceed
keep a profile from taking the checks out of the analyzer. -/

namespace PipeQuery.Profile

/-! ## Reading -/

/-- The largest number of a profile. -/
def maxNumber : Nat := UInt64.size - 1

/-- The largest number that fits the level of security events. -/
def maxLevel : Nat := 255

/-- The limits in a file. Every limit must be there. -/
def ofValue? (F : SettingsFormat) (file : F.Value) : Option Limits := do
  let natural? (most : Nat) (field : Option F.Value) : Option Nat := field.bind (F.natural? most)
  match ← F.fields? ["lexical", "logging"] file with
  | [some lexical, some logging] =>
    match
      ← F.fields?
        ["max_input_size", "max_token_count", "max_mode_depth", "max_reported_diagnostics"] lexical,
      ← F.fields?
        ["log_buffer_size", "max_log_message_length", "security_min_log_level"] logging with
    | [input, tokens, depth, diagnostics], [buffer, message, security] =>
      return {
        maxInputSize := ← natural? maxNumber input
        maxTokenCount := ← natural? maxNumber tokens
        maxModeDepth := ← natural? maxNumber depth
        maxReportedDiagnostics := ← natural? maxNumber diagnostics
        logBufferSize := ← natural? maxNumber buffer
        maxLogMessageLength := ← natural? maxNumber message
        securityMinLogLevel := ← natural? maxLevel security }
    | _, _ => none
  | _ => none

/-- The limits that a text sets in some format. -/
def parseIn? (F : SettingsFormat) (text : String) : Option Limits :=
  (F.parse? text).bind (ofValue? F)

/-- The limits that a text sets in TOML. -/
def parse? (text : String) : Option Limits :=
  parseIn? Toml.settingsFormat text

/-! ## Checking -/

/-- Why limits are no profile. -/
inductive Defect where
  | outOfRange (name : String) (value ceiling : Nat)
  | badSecurityLevel
  | tooLargeForProduction
  deriving DecidableEq, Repr

/-- The wording of a defect. -/
def Defect.message : Defect → String
  | .outOfRange name value ceiling => s!"{name} = {value} must be within 1..={ceiling}"
  | .badSecurityLevel => "security_min_log_level must be 0 (error), 1 (warning), or 2 (info)"
  | .tooLargeForProduction => "max_input_size above 50 MB is not allowed for production"

/-- What no profile may exceed. -/
def ceilings : List (String × Nat) :=
  [("max_input_size", 1000000000), ("max_token_count", 100000000), ("max_mode_depth", 65536),
    ("max_reported_diagnostics", 1000000), ("log_buffer_size", 100000),
    ("max_log_message_length", 1048576)]

/-- The ceiling of a limit. A name without one may have any number. -/
def ceiling (name : String) : Nat := (ceilings.lookup name).getD maxNumber

/-- The limits that have ceilings, by name. -/
def bounded (l : Limits) : List (String × Nat) :=
  [("max_input_size", l.maxInputSize), ("max_token_count", l.maxTokenCount),
    ("max_mode_depth", l.maxModeDepth), ("max_reported_diagnostics", l.maxReportedDiagnostics),
    ("log_buffer_size", l.logBufferSize), ("max_log_message_length", l.maxLogMessageLength)]

/-- Checks the limits of a named profile. Of several defects the first is told. -/
def check (profile : String) (l : Limits) : Except Defect Unit :=
  match (bounded l).find? fun limit => limit.2 = 0 || ceiling limit.1 < limit.2 with
  | some limit => .error (.outOfRange limit.1 limit.2 (ceiling limit.1))
  | none =>
    if 2 < l.securityMinLogLevel then .error .badSecurityLevel
    else if profile = "production" ∧ 50000000 < l.maxInputSize then .error .tooLargeForProduction
    else .ok ()

/-! ## Constants -/

def constant (name type : String) (value : Nat) : String :=
  s!"        pub const {name}: {type} = {value};\n"

/-- The source text that declares the limits of a profile as constants. -/
def constants (profile : String) (l : Limits) : String :=
  s!"// Generated by build.rs from the \x60{profile}\x60 profile; do not edit\n" ++
  "pub mod compile_time \x7b\n" ++
  "    pub mod lexical \x7b\n" ++
  constant "MAX_INPUT_SIZE" "usize" l.maxInputSize ++
  constant "MAX_TOKEN_COUNT" "usize" l.maxTokenCount ++
  constant "MAX_MODE_DEPTH" "usize" l.maxModeDepth ++
  constant "MAX_REPORTED_DIAGNOSTICS" "usize" l.maxReportedDiagnostics ++
  "    \x7d\n\n" ++
  "    pub mod logging \x7b\n" ++
  constant "LOG_BUFFER_SIZE" "usize" l.logBufferSize ++
  constant "MAX_LOG_MESSAGE_LENGTH" "usize" l.maxLogMessageLength ++
  constant "SECURITY_MIN_LOG_LEVEL" "u8" l.securityMinLogLevel ++
  "    \x7d\n\x7d\n"

/-! ## Files -/

/-- Where the file of a profile lies: in the configuration directory beside the
project's directory. -/
def path (env : Environment) (project : String) (profile : String) : String :=
  let project := project.toList
  let directory := (env.get? "ESQL_CONFIG_DIR").getD "config"
  let workspace := (Path.parent? project).getD project
  String.ofList
    (Path.join (Path.join workspace directory.toList) (profile ++ ".toml").toList)

end PipeQuery.Profile
