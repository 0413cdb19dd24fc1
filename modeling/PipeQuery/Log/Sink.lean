-- SUMMARY: Where events end up: journals that keep the last of them, and consoles that print them.
import PipeQuery.Log.Event
import PipeQuery.Settings.Limits

/-! # Sinks -/

namespace PipeQuery

/-! ## Journals -/

/-- The last events that were recorded, the oldest first. -/
structure Journal where
  events : List Event
  deriving DecidableEq, Repr

namespace Journal

def empty : Journal := ⟨[]⟩

/-- Adds an event. A journal that holds `capacity` events gives up its oldest. -/
def record (capacity : Nat) (j : Journal) (e : Event) : Journal :=
  ⟨j.events.drop (j.events.length + 1 - capacity) ++ [e]⟩

def size (j : Journal) : Nat := j.events.length

def warnings (j : Journal) : List Event := j.events.filter Event.isWarning

def withCode (j : Journal) (c : Code) : List Event := j.events.filter (·.code == c)

def hasError (j : Journal) (c : Code) : Bool := j.events.any fun e => e.isError && e.code == c

def hasSuccess (j : Journal) (c : Code) : Bool := j.events.any fun e => e.isInfo && e.code == c

end Journal

/-! ## Consoles -/

/-- A stream of the console. -/
inductive ConsoleStream where
  | output
  | error
  deriving DecidableEq, Repr

inductive Layout where
  | plain
  /-- One JSON record a line. -/
  | structured
  deriving DecidableEq, Repr

/-- An event that a console prints, without the line feed at its end. -/
structure ConsoleLine where
  layout : Layout
  event : Event
  deriving DecidableEq, Repr

namespace ConsoleLine

/-- Errors go to the error stream. -/
def stream (l : ConsoleLine) : ConsoleStream :=
  if l.event.isError then .error else .output

/-- The text of a line, where `F` writes JSON and `stamp` words the time. -/
def textIn (F : ValueFormat) (stamp : Moment → String) (l : ConsoleLine) : String :=
  match l.layout with
  | .plain => l.event.render
  | .structured => l.event.structuredLine F stamp

/-- The text of a line in the format that the program runs with. -/
def text (l : ConsoleLine) : String :=
  l.textIn Json.valueFormat Moment.render

end ConsoleLine

/-! ## Sinks -/

/-- A destination of events. -/
inductive Sink where
  | journal (journal : Journal)
  | console (layout : Layout) (level : Level)
  deriving DecidableEq, Repr

namespace Sink

def log (limits : Limits) (e : Event) : Sink → Sink × List ConsoleLine
  | .journal j => (.journal (j.record limits.logBufferSize e), [])
  | .console layout level =>
    (.console layout level, if level.admits e.level then [⟨layout, e⟩] else [])

def clear : Sink → Sink
  | .journal _ => .journal .empty
  | s => s

/-- The journal of a sink. A console keeps none. -/
def journal? : Sink → Option Journal
  | .journal j => some j
  | .console .. => none

end Sink

end PipeQuery
