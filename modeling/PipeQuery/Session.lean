-- SUMMARY: A session: preferences that are chosen once, logging that is started once, and what is printed on the way.
import PipeQuery.Analysis.Analyzer
import PipeQuery.Stream.Coverage

/-! # Sessions

Until logging is started a session is silent. Preferences that are not chosen
come from the environment, every time anew, while the log keeps the preferences
that it was started with. -/

namespace PipeQuery

/-- The state that all parts of a program share. -/
structure Session where
  environment : Environment
  /-- The logging preferences, once they are chosen. -/
  chosen? : Option LoggingPreferences
  /-- The log, once it is started. -/
  service? : Option Service
  deriving DecidableEq, Repr

/-- Why a session refuses a request. -/
inductive SessionError where
  | preferencesChosen
  | loggingStarted
  | badLimits (defect : Limits.Defect)
  /-- Nothing is known about a code that logging needs. -/
  | unregistered (code : Code)
  deriving DecidableEq, Repr

/-- The wording of a session error. -/
def SessionError.message : SessionError → String
  | .preferencesChosen => "Runtime preferences already initialized"
  | .loggingStarted => "Global logger already initialized"
  | .badLimits defect => s!"Configuration validation failed: {defect.message}"
  | .unregistered code => s!"Missing metadata for code: {code.name}"

/-- The answer to a request. -/
structure Session.Reply (α : Type) where
  value : α
  session : Session
  printed : List ConsoleLine

namespace Session

/-- A session in which nothing is chosen or started. -/
def fresh (environment : Environment) : Session :=
  { environment, chosen? := none, service? := none }

/-! ## Settings -/

/-- The logging preferences that hold now. -/
def preferences (s : Session) : LoggingPreferences :=
  s.chosen?.getD (.ofEnvironment s.environment)

/-- Chooses the logging preferences. This can be done once. -/
def choose (s : Session) (p : LoggingPreferences) : Except SessionError Session :=
  if s.chosen?.isSome then .error .preferencesChosen else .ok { s with chosen? := some p }

/-! ## Logging -/

/-- Logs events in order. Nothing is logged before logging is started. -/
def logAll (limits : Limits) (s : Session) (es : List Event) : Reply Unit :=
  match s.service? with
  | none => { value := (), session := s, printed := [] }
  | some service =>
    let (service, printed) := service.logAll limits es
    { value := (), session := { s with service? := some service }, printed }

/-- The events, if debug events are wanted. -/
def whenDebugging (limits : Limits) (s : Session) (es : List Event) : List Event :=
  if (s.preferences.effectiveLevel limits).admits .debug then es else []

/-- Starts logging. This can be done once. It is done even where a code turns out to be
missing from the registry. -/
def startLogging (limits : Limits) (now : Moment) (s : Session) :
    Reply (Except SessionError Unit) :=
  match limits.checkLogging, s.service? with
  | .error defect, _ => { value := .error (.badLimits defect), session := s, printed := [] }
  | .ok (), some _ => { value := .error .loggingStarted, session := s, printed := [] }
  | .ok (), none =>
    let started := { s with service? := some (s.preferences.service limits) }
    match Code.firstMissing? Code.essential with
    | some code => { value := .error (.unregistered code), session := started, printed := [] }
    | none =>
      let reply := started.logAll limits
        [.success now .initializationCompleted "Global logging system initialized"]
      { reply with value := .ok () }

/-! ## Work -/

/-- The event of a new token stream. -/
def indexedEvent (now : Moment) (t : TokenStream) : Event :=
  ((Event.debug now "Token stream indexed").withContext
    "total_tokens" (toString t.tokens.length)).withContext
    "significant_tokens" (toString t.size)

/-- Analyzes a text with the preferences of the environment. -/
def analyze (limits : Limits) (timing : Timing) (s : Session) (source : List Char) :
    Reply (Except LexicalError TokenStream) :=
  let size := Text.size source
  let outcome := analyzeText limits (.ofEnvironment s.environment)
    s.preferences.logPerformanceEvents timing .empty source
  let opening :=
    if limits.acceptsInput size then
      [((Event.debug timing.now "Starting lexical analysis").withContext
        "bytes" (toString size)).withContext
        "max_tokens_allowed" (toString limits.maxTokenCount)]
    else []
  let closing :=
    match outcome.result with
    | .ok tokens => [indexedEvent timing.now tokens]
    | .error _ => []
  let reply := s.logAll limits (s.whenDebugging limits opening ++
    outcome.notes.events.reverse ++ s.whenDebugging limits closing)
  { reply with value := outcome.result }

/-- Checks that the tokens of a new stream cover a text, and logs whether they do. -/
def validate (limits : Limits) (now : Moment) (s : Session) (tokens : TokenStream)
    (source : List Char) : Reply (Except CoverageError Unit) :=
  let result := Coverage.check tokens.tokens source
  let event :=
    match result with
    | .ok () => (Event.success now .validationPassed "Token stream covers source").withContext
        "tokens" (toString tokens.tokens.length)
    | .error e => (Event.error now .coverageViolation e.message).withContext
        "bytes" (toString (Text.size source))
  let reply := s.logAll limits (s.whenDebugging limits [indexedEvent now tokens] ++ [event])
  { reply with value := result }

/-- Checks the codes and the limits of the analyzer, and logs the limits if they hold. -/
def checkLimits (limits : Limits) (now : Moment) (s : Session) :
    Reply (Except Limits.Defect Unit) :=
  match Code.firstMissing? Code.lexical, limits.checkLexical with
  | some code, _ => { value := .error (.unregistered code), session := s, printed := [] }
  | none, .error defect => { value := .error defect, session := s, printed := [] }
  | none, .ok () =>
    let event := ((((Event.debug now "Lexical security limits initialized").withContext
      "max_input_size" (toString limits.maxInputSize)).withContext
      "max_token_count" (toString limits.maxTokenCount)).withContext
      "max_mode_depth" (toString limits.maxModeDepth)).withContext
      "max_reported_diagnostics" (toString limits.maxReportedDiagnostics)
    let reply := s.logAll limits (s.whenDebugging limits [event])
    { reply with value := .ok () }

end Session

end PipeQuery
