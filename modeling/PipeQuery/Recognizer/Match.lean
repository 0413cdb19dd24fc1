-- SUMMARY: How much of a text each recognizer accepts.
import PipeQuery.Recognizer.Comment
import PipeQuery.Recognizer.Scan
import PipeQuery.Text.Size

/-! # Match Lengths

The length of the longest beginning of a text that a recognizer accepts as a
whole, in characters; 0 if it accepts none. -/

namespace PipeQuery

open CharClass

def Scan.blockComment : List Char → Nat
  | '/' :: '*' :: cs =>
    match Comment.bodyLength? cs with
    | some body => body + 2
    | none => 0
  | _ => 0

/-- How many characters of a text the recognizer accepts. -/
def Recognizer.matchLength : Recognizer → List Char → Nat
  | .literal text, cs => Scan.fixed (· == ·) text cs
  | .keyword word, cs => Scan.fixed sameLetter word cs
  | .lineComment, cs => Scan.lineComment cs
  | .blockComment, cs => Scan.blockComment cs
  | .whitespace, cs => Scan.leading isBlank cs
  | .unknownCommand, cs => Scan.leading isCommandWord cs
  | .unquotedSource, cs => Scan.unquotedSource cs
  | .quotedString, cs => Scan.quotedString cs
  | .integer, cs => Scan.digits cs
  | .decimal, cs => Scan.decimal cs
  | .parameter, cs => Scan.parameter cs
  | .unquotedIdentifier, cs => Scan.unquotedIdentifier cs
  | .quotedIdentifier, cs => Scan.quotedIdentifier cs
  | .idPattern, cs => Scan.idPattern cs
  | .policyName, cs => Scan.policyName cs
  | .setting, cs => Scan.leading isSetting cs

/-- The size of what the recognizer accepts, in bytes. -/
def Recognizer.matchSize (r : Recognizer) (cs : List Char) : Nat :=
  Text.size (cs.take (r.matchLength cs))

end PipeQuery
