-- SUMMARY: The analyzer: runs of the tokenizer under the limits of the build, with metrics, diagnostics and events.
import PipeQuery.Analysis.Error
import PipeQuery.Analysis.Metrics
import PipeQuery.Settings.LogPolicy
import PipeQuery.Stream.Basic
import PipeQuery.Tokenizer

/-! # Analyzer

Unknown input never ends an analysis. It is noted and, within the limits,
reported; only a text that is too large or has too many tokens is refused. -/

namespace PipeQuery

/-- When an analysis takes place, and how long it takes. -/
structure Timing where
  now : Moment
  elapsedMicros : Nat
  deriving DecidableEq, Repr

/-! ## Notes -/

/-- What has been noted in the course of an analysis. -/
structure Notes where
  metrics : Metrics
  /-- The diagnostics, the last one first. -/
  diagnostics : List LexicalError
  /-- The events, the last one first. -/
  events : List Event
  deriving DecidableEq, Repr

namespace Notes

def empty : Notes := { metrics := .zero, diagnostics := [], events := [] }

def transitionEvent (now : Moment) (s : Tokenizer.Step) : Event :=
  ((((Event.debug now "Mode transition").withSpan s.token.span).withContext
    "from" s.mode.name).withContext
    "to" s.modes.current.name).withContext
    "token" s.token.kind.name

def unknownEvent (p : LexicalPreferences) (now : Moment) (s : Tokenizer.Step) : Event :=
  let error := LexicalError.ofUnknown s.token s.mode
  let message := if p.includePositionInErrors then error.message else "Unrecognized input"
  (((Event.warningWithCode now error.code message).withSpan s.token.span).withContext
    "text" s.token.text).withContext
    "mode" s.mode.name

def report (n : Notes) (e : Event) : Notes := { n with events := e :: n.events }

/-- Notes a change of mode, if such changes are traced. -/
def noteTransition (p : LexicalPreferences) (now : Moment) (n : Notes) (s : Tokenizer.Step) :
    Notes :=
  if p.traceModeTransitions && s.modes.current != s.mode then n.report (transitionEvent now s)
  else n

/-- Notes unknown input, unless there is too much of it. -/
def noteUnknown (limits : Limits) (p : LexicalPreferences) (now : Moment) (n : Notes)
    (s : Tokenizer.Step) : Notes :=
  if s.token.isUnknown && n.diagnostics.length < limits.maxReportedDiagnostics then
    let n := if p.logUnrecognizedInput then n.report (unknownEvent p now s) else n
    { n with diagnostics := .ofUnknown s.token s.mode :: n.diagnostics }
  else n

/-- Notes a step of the tokenizer. -/
def note (limits : Limits) (p : LexicalPreferences) (now : Moment) (n : Notes)
    (s : Tokenizer.Step) : Notes :=
  let n := (n.noteTransition p now s).noteUnknown limits p now s
  { n with metrics := n.metrics.record p s.mode s.token }

/-- Notes what became of the mode stack. -/
def noteModes (limits : Limits) (now : Moment) (n : Notes) (modes : ModeStack) : Notes :=
  let metrics :=
    { n.metrics with maxModeDepth := modes.deepest, droppedPushes := modes.dropped }
  let n := { n with metrics }
  if modes.dropped = 0 then n
  else
    n.report (((Event.warningWithCode now .modeStackOverflow
      "Mode stack limit reached; pushes were dropped").withContext
      "dropped" (toString modes.dropped)).withContext
      "limit" (toString limits.maxModeDepth))

/-- Notes the end of an analysis. -/
def noteEnd (performance : Bool) (timing : Timing) (bytes tokens : Nat) (n : Notes) : Notes :=
  let n := n.report ((((Event.success timing.now .tokenizationComplete
    "Tokenization completed").withContext
    "tokens" (toString tokens)).withContext
    "significant" (toString n.metrics.significant)).withContext
    "unknown" (toString n.metrics.unknown))
  if performance then
    n.report ((((Event.success timing.now .throughput "Lexer throughput").withContext
      "bytes" (toString bytes)).withContext
      "tokens" (toString tokens)).withContext
      "elapsed_us" (toString timing.elapsedMicros))
  else n

end Notes

/-! ## Runs -/

structure Outcome where
  result : Except LexicalError TokenStream
  notes : Notes

namespace Outcome

def tooLarge (limits : Limits) (now : Moment) (n : Notes) (size : Nat) : Outcome where
  result := .error (.inputTooLarge size limits.maxInputSize)
  notes := n.report (((Event.error now .inputTooLarge
    "Query exceeds input size limit").withContext
    "size" (toString size)).withContext
    "limit" (toString limits.maxInputSize))

/-- The outcome for a text with `count` tokens or more, which are too many. The last of
them is the first beyond the limit. -/
def tooManyTokens (limits : Limits) (now : Moment) (n : Notes) (count : Nat) (t : Token) :
    Outcome where
  result := .error (.tooManyTokens count limits.maxTokenCount)
  notes := n.report (((Event.error now .tooManyTokens "Token limit exceeded").withSpan
    t.span).withContext
    "limit" (toString limits.maxTokenCount))

/-- The outcome for the steps of a whole run over a text. -/
def complete (limits : Limits) (performance : Bool) (timing : Timing) (source : List Char)
    (modes : ModeStack) (n : Notes) (tokens : List Token) : Outcome where
  result := .ok (.ofTokens tokens (some (.ofText source)))
  notes := (n.noteModes limits timing.now modes).noteEnd performance timing
    (Text.size source) tokens.length

end Outcome

/-- Reads what is left of a text, token by token up to the end of input, and notes each.
The limit is checked before a token is kept, so that one beyond it is read and no more. -/
def readFrom (limits : Limits) (p : LexicalPreferences) (performance : Bool) (timing : Timing)
    (source : List Char) (tokens : Array Token) (n : Notes) (t : Tokenizer) : Outcome :=
  let next := t.next
  if limits.maxTokenCount ≤ tokens.size then
    .tooManyTokens limits timing.now n (tokens.size + 1) next.1
  else
    let n := n.note limits p timing.now ⟨t.mode, next.1, next.2.modes⟩
    let tokens := tokens.push next.1
    if next.1.isEof then
      .complete limits performance timing source next.2.modes n tokens.toList
    else readFrom limits p performance timing source tokens n next.2
termination_by t.rest.length
decreasing_by
  refine Tokenizer.length_rest_next_lt fun hrest => ‹¬next.1.isEof = true› ?_
  simp only [next, Tokenizer.next_of_rest_nil hrest]
  rfl

/-- Analyzes a text, and notes what is found. -/
def analyzeText (limits : Limits) (p : LexicalPreferences) (performance : Bool) (timing : Timing)
    (n : Notes) (source : List Char) : Outcome :=
  let size := Text.size source
  if limits.acceptsInput size then
    readFrom limits p performance timing source #[] n (.start limits.maxModeDepth source)
  else .tooLarge limits timing.now n size

/-! ## Analyzer -/

/-- An analyzer with what its last run found. -/
structure Analyzer where
  preferences : LexicalPreferences
  /-- Where events go. -/
  service : Service
  metrics : Metrics
  /-- The first unknown tokens of the last text, in order. -/
  diagnostics : List LexicalError
  deriving DecidableEq, Repr

structure Analysis where
  result : Except LexicalError TokenStream
  analyzer : Analyzer
  printed : List ConsoleLine

namespace Analyzer

def fresh (preferences : LexicalPreferences) (service : Service) : Analyzer :=
  { preferences, service, metrics := .zero, diagnostics := [] }

def setPreferences (p : LexicalPreferences) (a : Analyzer) : Analyzer :=
  { a with preferences := p }

/-- Forgets what earlier runs found. -/
def reset (a : Analyzer) : Analyzer :=
  { a with metrics := .zero, diagnostics := [] }

/-- What has been found so far. -/
def notes (a : Analyzer) : Notes :=
  { metrics := a.metrics, diagnostics := a.diagnostics.reverse, events := [] }

@[simp] theorem notes_reset (a : Analyzer) : a.reset.notes = .empty := rfl

/-- Analyzes a text. -/
def analyze (limits : Limits) (performance : Bool) (timing : Timing) (a : Analyzer)
    (source : List Char) : Analysis :=
  let a := a.reset
  let outcome := analyzeText limits a.preferences performance timing a.notes source
  let (service, printed) := a.service.logAll limits outcome.notes.events.reverse
  { result := outcome.result
    analyzer := { a with
      service
      metrics := outcome.notes.metrics
      diagnostics := outcome.notes.diagnostics.reverse }
    printed }

end Analyzer

end PipeQuery
