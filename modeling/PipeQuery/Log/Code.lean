-- SUMMARY: The codes that errors and events carry, and the registry that classifies them.

/-! # Codes

Every code that this library attaches to an error or an event is registered here
once, with what tools need to sort it. Codes that are not registered have
defaults. -/

namespace PipeQuery

/-- How grave a code is, the gravest first. -/
inductive Severity where
  | critical
  | high
  | medium
  | low
  deriving DecidableEq, Repr

namespace Severity

def all : List Severity := [.critical, .high, .medium, .low]

def name : Severity → String
  | .critical => "Critical"
  | .high => "High"
  | .medium => "Medium"
  | .low => "Low"

def ofName? (name : String) : Option Severity :=
  all.find? (·.name == name)

/-- The place of a severity in order. -/
def rank (s : Severity) : Nat := all.idxOf s

end Severity

/-- A code of an error, a warning or a success. -/
structure Code where
  name : String
  deriving DecidableEq, Repr

/-- What is known about a code. -/
structure CodeInfo where
  code : Code
  category : String
  severity : Severity
  recoverable : Bool
  requiresHalt : Bool
  description : String
  action : String
  deriving DecidableEq, Repr

namespace Code

/-! ## System -/

def internalError : Code := ⟨"ERR001"⟩
def initializationFailure : Code := ⟨"ERR002"⟩
def configurationError : Code := ⟨"ERR004"⟩

/-! ## Lexical -/

def unrecognizedInput : Code := ⟨"E020"⟩
def inputTooLarge : Code := ⟨"E021"⟩
def modeStackOverflow : Code := ⟨"E022"⟩
def unexpectedToken : Code := ⟨"E023"⟩
def unexpectedEndOfStream : Code := ⟨"E024"⟩
def coverageViolation : Code := ⟨"E025"⟩
def tooManyTokens : Code := ⟨"E027"⟩

/-! ## Success -/

def initializationCompleted : Code := ⟨"I004"⟩
def tokenizationComplete : Code := ⟨"I020"⟩
def validationPassed : Code := ⟨"I021"⟩
def throughput : Code := ⟨"I022"⟩

/-! ## Unclassified Events -/

def warning : Code := ⟨"W000"⟩
def info : Code := ⟨"I000"⟩
def debug : Code := ⟨"D000"⟩

/-! ## Registry -/

def registry : List CodeInfo :=
  [{ code := internalError
     category := "System"
     severity := .critical
     recoverable := false
     requiresHalt := true
     description := "Critical internal system error"
     action := "File a bug report with the query that triggered it" },
   { code := initializationFailure
     category := "System"
     severity := .critical
     recoverable := false
     requiresHalt := true
     description := "System initialization failure"
     action := "Check logging setup and configuration" },
   { code := configurationError
     category := "System"
     severity := .high
     recoverable := true
     requiresHalt := false
     description := "Runtime configuration could not be loaded"
     action := "Check the configuration file path and TOML syntax" },
   { code := unrecognizedInput
     category := "Lexical"
     severity := .medium
     recoverable := true
     requiresHalt := false
     description := "Input not accepted by any rule of the active lexer mode"
     action := "Check the query near the reported position" },
   { code := inputTooLarge
     category := "Lexical"
     severity := .high
     recoverable := false
     requiresHalt := true
     description := "Query exceeds maximum input size"
     action := "Shorten the query or raise max_input_size in the build profile" },
   { code := modeStackOverflow
     category := "Lexical"
     severity := .medium
     recoverable := true
     requiresHalt := false
     description := "Mode stack reached maximum depth, further pushes ignored"
     action := "Reduce bracket nesting in the query" },
   { code := unexpectedToken
     category := "Lexical"
     severity := .medium
     recoverable := true
     requiresHalt := false
     description := "Unexpected token in token stream"
     action := "Check token sequence against the expected kind" },
   { code := unexpectedEndOfStream
     category := "Lexical"
     severity := .medium
     recoverable := true
     requiresHalt := false
     description := "Token stream ended before the expected token"
     action := "Check that the query is complete" },
   { code := coverageViolation
     category := "Lexical"
     severity := .critical
     recoverable := false
     requiresHalt := true
     description := "Tokens do not cover the source exactly"
     action := "Report lexer bug with the offending query" },
   { code := tooManyTokens
     category := "Lexical"
     severity := .high
     recoverable := false
     requiresHalt := true
     description := "Query produces too many tokens, possible DoS attempt"
     action := "Reduce query complexity or raise max_token_count" },
   { code := initializationCompleted
     category := "System"
     severity := .low
     recoverable := true
     requiresHalt := false
     description := "System initialization completed successfully"
     action := "Continue normal operation" },
   { code := tokenizationComplete
     category := "Lexical"
     severity := .low
     recoverable := true
     requiresHalt := false
     description := "Tokenization completed"
     action := "Continue to parsing" },
   { code := validationPassed
     category := "Lexical"
     severity := .low
     recoverable := true
     requiresHalt := false
     description := "Token stream validation passed"
     action := "Continue to parsing" },
   { code := throughput
     category := "Performance"
     severity := .low
     recoverable := true
     requiresHalt := false
     description := "Lexer throughput for one query"
     action := "None; disable with the performance events preference" }]

/-- What the registry holds about a code. -/
def info? (c : Code) : Option CodeInfo :=
  registry.find? (·.code == c)

def isRegistered (c : Code) : Bool := c.info?.isSome

/-- The codes of the analyzer. -/
def lexical : List Code :=
  [unrecognizedInput, inputTooLarge, modeStackOverflow, unexpectedToken, unexpectedEndOfStream,
    coverageViolation, tooManyTokens]

/-- The codes that logging cannot do without. -/
def essential : List Code := [unrecognizedInput, tooManyTokens, tokenizationComplete]

/-- The first of some codes that the registry does not know. -/
def firstMissing? (codes : List Code) : Option Code := codes.find? (!·.isRegistered)

@[simp] theorem firstMissing?_lexical : firstMissing? lexical = none := by decide

@[simp] theorem firstMissing?_essential : firstMissing? essential = none := by decide

/-! ## Look-ups with Defaults -/

def severity (c : Code) : Severity := (c.info?.map (·.severity)).getD .medium

def isRecoverable (c : Code) : Bool := (c.info?.map (·.recoverable)).getD true

def requiresHalt (c : Code) : Bool := (c.info?.map (·.requiresHalt)).getD false

def description (c : Code) : String := (c.info?.map (·.description)).getD "Unknown error"

def action (c : Code) : String :=
  (c.info?.map (·.action)).getD "No specific action available"

def category (c : Code) : String := (c.info?.map (·.category)).getD "Unknown"

end Code

end PipeQuery
