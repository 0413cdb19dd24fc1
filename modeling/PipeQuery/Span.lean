-- SUMMARY: Spans of a query text between two positions: building, merging, membership, slicing and their text form.
import PipeQuery.Position

/-! # Spans

A span runs from its start up to, and without, its stop. Spans that are built
from two positions are in order; spans that are read from elsewhere need not be,
and every operation is defined on those too. -/

namespace PipeQuery

/-- The part of a text between two positions. -/
structure Span where
  start : Position
  stop : Position
  deriving DecidableEq, Repr

/-- Why two positions make no span. -/
inductive SpanError where
  | endsBeforeStart
  deriving DecidableEq, Repr

def SpanError.message : SpanError → String
  | .endsBeforeStart => "span ends before it starts"

namespace Span

/-! ## Building -/

/-- The span between two positions, refused if its offsets run backwards. -/
def between (start stop : Position) : Except SpanError Span :=
  if start.offset ≤ stop.offset then .ok ⟨start, stop⟩ else .error .endsBeforeStart

/-- The span of no characters at a position. -/
def empty (p : Position) : Span := ⟨p, p⟩

/-- The span a text covers when it is written at a position. -/
def covering (start : Position) (cs : List Char) : Span := ⟨start, start.advanceOver cs⟩

/-- The smallest span that covers both. -/
def merge (s t : Span) : Span :=
  ⟨s.start.earliest t.start, s.stop.latest t.stop⟩

/-! ## Asking -/

def size (s : Span) : Nat := s.stop.offset - s.start.offset

def isEmpty (s : Span) : Bool := s.size == 0

/-- Whether a place lies inside, by its offset alone. -/
def contains (s : Span) (p : Position) : Bool :=
  s.start.offset ≤ p.offset && p.offset < s.stop.offset

/-- The text under the span, empty where the span does not fit the text. -/
def slice (s : Span) (cs : List Char) : List Char :=
  (Text.slice? s.start.offset s.stop.offset cs).getD []

/-- Whether both ends are in range. -/
def InRange (s : Span) : Prop := s.start.InRange ∧ s.stop.InRange

instance (s : Span) : Decidable s.InRange :=
  inferInstanceAs (Decidable (_ ∧ _))

/-! ## Text -/

/-- The start, then the column where the span stops, with its line if that is
another one. -/
def render (s : Span) : String :=
  if s.start.line = s.stop.line then s!"{s.start.render}-{s.stop.column}"
  else s!"{s.start.render}-{s.stop.render}"

end Span

end PipeQuery
