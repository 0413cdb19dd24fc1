-- SUMMARY: The limits a build fixes, and when they cannot be worked with.
import PipeQuery.Log.Code

/-! # Limits

A build of the library fixes its limits once and for all from a profile. -/

namespace PipeQuery

/-- The limits of a build. -/
structure Limits where
  /-- The largest text that is analyzed, in bytes. -/
  maxInputSize : Nat
  /-- The most tokens of an analyzed text, hidden ones and the end of input included. -/
  maxTokenCount : Nat
  /-- The deepest mode stack. -/
  maxModeDepth : Nat
  /-- The most diagnostics that a run keeps and logs. -/
  maxReportedDiagnostics : Nat
  /-- How many events a journal holds. -/
  logBufferSize : Nat
  /-- The longest message that is logged, in bytes. -/
  maxLogMessageLength : Nat
  /-- The level of security events: 0 for errors, 1 for warnings, 2 for information. -/
  securityMinLogLevel : Nat
  deriving DecidableEq, Repr

namespace Limits

/-- The limits of production builds. -/
def production : Limits where
  maxInputSize := 1048576
  maxTokenCount := 250000
  maxModeDepth := 256
  maxReportedDiagnostics := 100
  logBufferSize := 1000
  maxLogMessageLength := 1024
  securityMinLogLevel := 1

/-- Whether a text of some size is analyzed. -/
def acceptsInput (l : Limits) (bytes : Nat) : Bool := bytes ≤ l.maxInputSize

/-! ## Checks -/

/-- Why limits cannot be worked with. -/
inductive Defect where
  /-- A limit of the analyzer leaves no room at all. -/
  | noRoom
  | bufferTooLarge (size : Nat)
  | bufferTooSmall (size : Nat)
  | messageTooShort (length : Nat)
  /-- Nothing is known about a code that the limits are enforced with. -/
  | unregistered (code : Code)
  deriving DecidableEq, Repr

/-- The wording of a defect. -/
def Defect.message : Defect → String
  | .noRoom => "Lexical limits cannot be zero"
  | .bufferTooLarge size => s!"Log buffer size too large: {size}"
  | .bufferTooSmall size => s!"Log buffer size too small: {size}"
  | .messageTooShort length => s!"Max log message length too small: {length}"
  | .unregistered code => s!"Lexical error code {code.name} not found in metadata registry"

/-- Checks the limits of the analyzer. -/
def checkLexical (l : Limits) : Except Defect Unit :=
  if l.maxInputSize = 0 ∨ l.maxTokenCount = 0 ∨ l.maxModeDepth = 0 then .error .noRoom
  else .ok ()

/-- Checks the limits of logging. -/
def checkLogging (l : Limits) : Except Defect Unit :=
  if 100000 < l.logBufferSize then .error (.bufferTooLarge l.logBufferSize)
  else if l.logBufferSize < 100 then .error (.bufferTooSmall l.logBufferSize)
  else if l.maxLogMessageLength < 64 then .error (.messageTooShort l.maxLogMessageLength)
  else .ok ()

end Limits

end PipeQuery
