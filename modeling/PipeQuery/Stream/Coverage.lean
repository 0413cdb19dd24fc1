-- SUMMARY: Checks that tokens run in order and cover a text exactly, up to a closing end of input.
import PipeQuery.Stream.Basic

/-! # Coverage

Tokens cover a text if each begins where the one before it stops, each has the
text that stands there, and the last one is the end of input at the end of the
text. -/

namespace PipeQuery

/-- Why tokens do not cover a text. -/
inductive CoverageError where
  /-- A token stops behind the start of the next. -/
  | overlap (stop next : Nat)
  /-- A token does not start where the one before it stops. -/
  | gap (expected : Nat) (kind : TokenKind) (found : Nat)
  /-- A token's text is not what stands under its span. -/
  | textMismatch (kind : TokenKind) (span : Span)
  /-- The tokens stop elsewhere than the text. -/
  | sizeMismatch (stop size : Nat)
  /-- The last token is not the end of input. -/
  | noEof
  deriving DecidableEq, Repr

/-- The wording of a coverage error. -/
def CoverageError.message : CoverageError → String
  | .overlap stop next =>
    s!"Span order violation: token ending at {stop} overlaps next token at {next}"
  | .gap expected kind found =>
    s!"Coverage gap: expected token at offset {expected}, found {kind.name} at {found}"
  | .textMismatch kind span => s!"Token text mismatch for {kind.name} at {span.render}"
  | .sizeMismatch stop size => s!"Tokens end at offset {stop} but source has {size} bytes"
  | .noEof => "Token stream does not end with EOF"

namespace Coverage

/-- Checks that no token stops behind the start of the next. -/
def checkOrder : List Token → Except CoverageError Unit
  | t :: u :: ts =>
    if u.span.start.offset < t.span.stop.offset then
      .error (.overlap t.span.stop.offset u.span.start.offset)
    else checkOrder (u :: ts)
  | _ => .ok ()

/-- Checks tokens against the text from an offset on, and tells where they stop. -/
def walk (offset : Nat) (rest : List Char) : List Token → Except CoverageError Nat
  | [] => .ok offset
  | t :: ts =>
    let text := t.text.toList
    if t.span.start.offset ≠ offset then .error (.gap offset t.kind t.span.start.offset)
    else if text.isPrefixOf rest ∧ offset + Text.size text = t.span.stop.offset then
      walk t.span.stop.offset (rest.drop text.length) ts
    else .error (.textMismatch t.kind t.span)

/-- Checks that tokens cover a text. -/
def check (tokens : List Token) (source : List Char) : Except CoverageError Unit := do
  checkOrder tokens
  let stop ← walk 0 source tokens
  if stop ≠ Text.size source then throw (.sizeMismatch stop (Text.size source))
  match tokens.getLast? with
  | some t => if t.isEof then return () else throw .noEof
  | none => throw .noEof

end Coverage

end PipeQuery
