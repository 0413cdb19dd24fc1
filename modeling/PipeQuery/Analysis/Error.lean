-- SUMMARY: What can be wrong with a query text: unknown input, too much text, too many tokens.
import PipeQuery.Log.Code
import PipeQuery.Token.Basic
import PipeQuery.Mode.Basic

/-! # Lexical Errors -/

namespace PipeQuery

/-- What is wrong with a query text. Only the limits end an analysis. -/
inductive LexicalError where
  /-- Text that no rule accepts, with the name of the mode it was read in. -/
  | unrecognized (text : String) (line column : Nat) (mode : String)
  | inputTooLarge (size limit : Nat)
  | tooManyTokens (count limit : Nat)
  deriving DecidableEq, Repr

namespace LexicalError

/-- The error of an unknown token that was read in a mode. -/
def ofUnknown (t : Token) (mode : Mode) : LexicalError :=
  .unrecognized t.text t.span.start.line t.span.start.column mode.name

def message : LexicalError → String
  | .unrecognized text line column mode =>
    s!"Unrecognized input '{text}' at line {line}, column {column} in {mode}"
  | .inputTooLarge size limit => s!"Input too large: {size} bytes (max {limit})"
  | .tooManyTokens count limit => s!"Too many tokens: {count} (max {limit})"

def code : LexicalError → Code
  | .unrecognized .. => .unrecognizedInput
  | .inputTooLarge .. => .inputTooLarge
  | .tooManyTokens .. => .tooManyTokens

end LexicalError

end PipeQuery
