-- SUMMARY: Log events: making them, adding context, asking for their classification, and their plain and JSON forms.
import PipeQuery.Calendar
import PipeQuery.Json.Format
import PipeQuery.Log.Code
import PipeQuery.Log.Level
import PipeQuery.Span

/-! # Log Events -/

namespace PipeQuery

/-- Named values that go with an event. -/
abbrev Context := NameMap String

/-! ## Events -/

/-- Something worth logging. -/
structure Event where
  time : Moment
  level : Level
  code : Code
  message : String
  span? : Option Span
  context : Context
  deriving DecidableEq, Repr

namespace Event

/-- An event without span and context. -/
def bare (time : Moment) (level : Level) (code : Code) (message : String) : Event :=
  { time, level, code, message, span? := none, context := [] }

def error (time : Moment) (code : Code) (message : String) : Event :=
  bare time .error code message

def warning (time : Moment) (message : String) : Event :=
  bare time .warning .warning message

def warningWithCode (time : Moment) (code : Code) (message : String) : Event :=
  bare time .warning code message

def info (time : Moment) (message : String) : Event :=
  bare time .info .info message

/-- Information under the code of a success. -/
def success (time : Moment) (code : Code) (message : String) : Event :=
  bare time .info code message

def debug (time : Moment) (message : String) : Event :=
  bare time .debug .debug message

def withSpan (e : Event) (s : Span) : Event := { e with span? := some s }

def withContext (e : Event) (key value : String) : Event :=
  { e with context := e.context.insert key value }

/-! ## Asking -/

def isError (e : Event) : Bool := e.level == .error

def isWarning (e : Event) : Bool := e.level == .warning

def isInfo (e : Event) : Bool := e.level == .info

/-! ## Text -/

/-- The plain line of an event. -/
def render (e : Event) : String :=
  let place :=
    match e.span? with
    | some s => s!" at {s.start.render}"
    | none => ""
  s!"[{e.level.name}] {e.code.name} - {e.message}{place}"

/-! ## JSON -/

section Json

variable (F : ValueFormat)

/-- What tools need to handle an error. -/
def errorMetadata (e : Event) : F.Value :=
  F.object [("recoverable", F.flag e.code.isRecoverable),
    ("requires_halt", F.flag e.code.requiresHalt),
    ("description", F.text e.code.description),
    ("recommended_action", F.text e.code.action)]

def spanNumbers (s : Span) : F.Value :=
  F.object [("start_offset", F.natural s.start.offset), ("end_offset", F.natural s.stop.offset),
    ("start_line", F.natural s.start.line), ("start_column", F.natural s.start.column),
    ("end_line", F.natural s.stop.line), ("end_column", F.natural s.stop.column)]

def contextValues (context : Context) : F.Value :=
  F.object (context.map fun entry => (entry.1, F.text entry.2))

/-- The record of an event, with the time as `stamp` words it. Three members depend on
the event. -/
def toValue (stamp : Moment → String) (e : Event) : F.Value :=
  let record := F.object [("timestamp", F.text (stamp e.time)), ("level", F.text e.level.name),
    ("code", F.text e.code.name), ("message", F.text e.message),
    ("category", F.text e.code.category), ("severity", F.text e.code.severity.name)]
  let record := if e.isError then F.set record "error_metadata" (e.errorMetadata F) else record
  let record :=
    match e.span? with
    | some s => F.set record "span" (spanNumbers F s)
    | none => record
  if e.context.isEmpty then record else F.set record "context" (contextValues F e.context)

/-- The JSON line of an event. -/
def formatJson (stamp : Moment → String) (e : Event) : Except F.Error String :=
  F.print (e.toValue F stamp)

/-- What a structured log writes for an event: its JSON line, or else its plain one. -/
def structuredLine (stamp : Moment → String) (e : Event) : String :=
  match e.formatJson F stamp with
  | .ok line => line
  | .error _ => e.render

end Json

/-- The JSON line of an event in the format that the program runs with. -/
def renderJson (e : Event) : String :=
  e.structuredLine Json.valueFormat Moment.render

end Event

end PipeQuery
