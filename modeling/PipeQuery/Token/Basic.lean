-- SUMMARY: Tokens: kind, exact text, span and channel, with their predicates and text form.
import PipeQuery.Span
import PipeQuery.Text.Quoted
import PipeQuery.Token.Channel
import PipeQuery.Token.Kind

/-! # Tokens -/

namespace PipeQuery

/-- A piece of a query text. -/
structure Token where
  kind : TokenKind
  /-- The text as it stands in the query, empty for the end of input. -/
  text : String
  span : Span
  channel : Channel
  deriving DecidableEq, Repr

namespace Token

/-- The end of input at a position. -/
def eof (p : Position) : Token :=
  { kind := .eof, text := "", span := .empty p, channel := .default }

def isEof (t : Token) : Bool := t.kind == .eof

def isUnknown (t : Token) : Bool := t.kind == .unknown

/-- Whether the token goes to nobody. -/
def isHidden (t : Token) : Bool := t.channel == .hidden

/-- Whether parsers see the token. -/
def isSignificant (t : Token) : Bool := t.channel == .default

/-- Parsers see what is not hidden. -/
theorem isSignificant_eq (t : Token) : t.isSignificant = !t.isHidden := by
  unfold isSignificant isHidden
  cases t.channel <;> rfl

/-- Kind, quoted text and start of a token. -/
def render (t : Token) : String :=
  s!"{t.kind.name} {Text.quoted t.text} @{t.span.start.render}"

end Token

end PipeQuery
