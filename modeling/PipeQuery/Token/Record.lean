-- SUMMARY: Tokens as records: writing them with their fields in a fixed order, and reading them back.
import PipeQuery.Json.Format
import PipeQuery.Token.Basic

/-! # Token Records

The form in which tokens are exchanged. Offsets are 64-bit numbers, lines and
columns 32-bit numbers; start and stop of a span may be in any order. -/

namespace PipeQuery

/-! ## Writing -/

section Writing

variable (F : RecordFormat)

def Position.encode (p : Position) : Except F.Error String := do
  F.record [("offset", ← F.natural p.offset), ("line", ← F.natural p.line),
    ("column", ← F.natural p.column)]

def Span.encode (s : Span) : Except F.Error String := do
  F.record [("start", ← s.start.encode F), ("end", ← s.stop.encode F)]

def Token.encode (t : Token) : Except F.Error String := do
  F.record [("kind", ← F.choice t.kind.name), ("text", ← F.text t.text),
    ("span", ← t.span.encode F), ("channel", ← F.choice t.channel.label)]

end Writing

/-! ## Reading -/

section Reading

variable (F : RecordFormat)

def Position.decode? (cs : String) : Option Position := do
  match ← F.fields? ["offset", "line", "column"] cs with
  | [o, l, c] =>
    return {
      offset := ← F.natural? maxOffset o
      line := ← F.natural? maxLine l
      column := ← F.natural? maxLine c }
  | _ => none

def Span.decode? (cs : String) : Option Span := do
  match ← F.fields? ["start", "end"] cs with
  | [a, b] => return { start := ← Position.decode? F a, stop := ← Position.decode? F b }
  | _ => none

/-- The token of a record. Kinds go by their symbolic names. -/
def Token.decode? (cs : String) : Option Token := do
  match ← F.fields? ["kind", "text", "span", "channel"] cs with
  | [k, t, s, c] =>
    return {
      kind := ← TokenKind.ofName? (← F.choice? (TokenKind.all.map (·.name)) k)
      text := ← F.text? t
      span := ← Span.decode? F s
      channel := ← Channel.ofLabel? (← F.choice? (Channel.all.map (·.label)) c) }
  | _ => none

end Reading

/-! ## In JSON -/

/-- The text of a token's record. -/
def Token.write (t : Token) : String :=
  match t.encode Json.recordFormat with
  | .ok cs => cs

/-- The token whose record a text is. -/
def Token.read? (cs : String) : Option Token :=
  Token.decode? Json.recordFormat cs

end PipeQuery
