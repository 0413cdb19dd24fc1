-- SUMMARY: The logging service: level filters, cut messages, and fan-out to any number of sinks.
import PipeQuery.Log.Sink
import PipeQuery.Text.Size

/-! # Logging Service -/

namespace PipeQuery

/-! ## Fan-out -/

/-- Sinks behind a common level filter. -/
structure Fanout where
  level : Level
  sinks : List Sink
  deriving DecidableEq, Repr

namespace Fanout

def size (f : Fanout) : Nat := f.sinks.length

def isEmpty (f : Fanout) : Bool := f.sinks.isEmpty

def log (limits : Limits) (e : Event) (f : Fanout) : Fanout × List ConsoleLine :=
  if f.level.admits e.level then
    let taken := f.sinks.map (Sink.log limits e)
    ({ f with sinks := taken.map (·.1) }, taken.flatMap (·.2))
  else (f, [])

end Fanout

/-! ## Service -/

/-- A fan-out behind a service-wide level filter. -/
structure Service where
  level : Level
  fanout : Fanout
  deriving DecidableEq, Repr

namespace Service

/-- An event whose message is short enough to be logged. A longer one is cut at the limit,
or in front of the character that does not end there. -/
def cut (limits : Limits) (e : Event) : Event :=
  let text := e.message.toList
  if limits.maxLogMessageLength < Text.size text then
    let offset := Text.floorBoundary text limits.maxLogMessageLength
    { e with message := String.ofList (Text.truncate offset text) }
  else e

def log (limits : Limits) (e : Event) (s : Service) : Service × List ConsoleLine :=
  if s.level.admits e.level then
    let (fanout, lines) := s.fanout.log limits (cut limits e)
    ({ s with fanout }, lines)
  else (s, [])

/-- Logs events in order, after lines that are printed already, the last of them
first. -/
def logAllFrom (limits : Limits) (printed : List ConsoleLine) :
    List Event → Service → Service × List ConsoleLine
  | [], s => (s, printed.reverse)
  | e :: es, s =>
    let (s, lines) := s.log limits e
    logAllFrom limits (lines.reverse ++ printed) es s

def logAll (limits : Limits) (es : List Event) (s : Service) : Service × List ConsoleLine :=
  logAllFrom limits [] es s

def clear (index : Nat) (s : Service) : Service :=
  { s with fanout := { s.fanout with sinks := s.fanout.sinks.modify index Sink.clear } }

/-- The journal of the sink with an index, empty if it keeps none. -/
def journal (index : Nat) (s : Service) : Journal :=
  (s.fanout.sinks[index]?.bind Sink.journal?).getD .empty

end Service

end PipeQuery
