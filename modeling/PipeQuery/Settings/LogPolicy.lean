-- SUMMARY: What is logged and how, once user preferences meet the limits of the build.
import PipeQuery.Log.Service
import PipeQuery.Settings.Preferences

/-! # Log Policy

Preferences choose what is logged, but only within bounds: unless security
events are turned off, nothing may hide their level. -/

namespace PipeQuery

/-- The level of security events. -/
def Limits.securityLevel (l : Limits) : Level := .ofRank l.securityMinLogLevel

namespace LoggingPreferences

/-- The least important level that is logged. -/
def effectiveLevel (limits : Limits) (p : LoggingPreferences) : Level :=
  if p.logSecurityMetrics && !p.minLogLevel.admits limits.securityLevel then
    limits.securityLevel
  else p.minLogLevel

/-- The consoles that the preferences ask for: one or none. -/
def consoles (limits : Limits) (p : LoggingPreferences) : Fanout :=
  let level := p.effectiveLevel limits
  let layout : Layout := if p.useStructuredLogging then .structured else .plain
  { level, sinks := if p.enableConsoleLogging then [.console layout level] else [] }

/-- The service that the preferences ask for. -/
def service (limits : Limits) (p : LoggingPreferences) : Service where
  level := p.effectiveLevel limits
  fanout := p.consoles limits

end LoggingPreferences

end PipeQuery
