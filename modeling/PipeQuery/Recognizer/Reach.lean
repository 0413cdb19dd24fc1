-- SUMMARY: How far a text goes on fitting a recognizer, whether or not it is accepted in the end.
import PipeQuery.Text.Size
import PipeQuery.Recognizer.Match

/-! # Reach

The length of the longest beginning of a text with which some accepted text
still begins: a string that is opened and never closed reaches the end of its
line, a keyword reaches the first letter that differs. What a recognizer accepts
is always within its reach. -/

namespace PipeQuery

open CharClass

namespace Scan

/-! ## Open Patterns -/

/-- A comment that may still be opened, and what an opened block swallows. -/
def openBlockComment : List Char → Nat
  | '/' :: '*' :: cs => cs.length + 2
  | '/' :: _ => 1
  | _ => 0

/-- The slash that may still open a line comment. -/
def openLineComment : List Char → Nat
  | '/' :: _ => 1
  | _ => 0

/-- An index pattern with a slash behind it, which may still go on. -/
def openSource (cs : List Char) : Nat :=
  let n := unquotedSource cs
  match cs.drop n with
  | '/' :: _ => n + 1
  | _ => n

/-- A string up to its closing mark, or up to where it can no longer be closed. -/
def openSimpleString : List Char → Nat
  | '"' :: cs =>
    let body := pieces stringPiece cs
    match cs.drop body with
    | '"' :: _ | '\\' :: _ => body + 2
    | _ => body + 1
  | _ => 0

/-- A string between tripled marks up to the end of its line. -/
def openTripleString (cs : List Char) : Nat :=
  let marks := min 3 (leading (· == '"') cs)
  if marks < 3 then marks else 3 + leading (fun c => !isLineEnd c) (cs.drop 3)

/-- An exponent that may still lack its digits. -/
def openExponent : List Char → Nat
  | c :: cs =>
    if c = 'e' ∨ c = 'E' then 1 + sign cs + digits (cs.drop (sign cs)) else 0
  | [] => 0

/-- A number that may still lack its point, its fraction or its exponent. -/
def openDecimal (cs : List Char) : Nat :=
  let whole := digits cs
  match cs.drop whole with
  | '.' :: rest =>
    let fraction := digits rest
    if whole = 0 ∧ fraction = 0 then 1
    else whole + 1 + fraction + openExponent (rest.drop fraction)
  | rest => if whole = 0 then 0 else whole + openExponent rest

/-- The mark that may still begin a name. -/
def openMark (p : Char → Bool) : List Char → Nat
  | c :: _ => if p c then 1 else 0
  | [] => 0

/-- A character between backquotes, or a doubled backquote. -/
def backquotedPiece : List Char → Nat
  | '\x60' :: '\x60' :: _ => 2
  | '\x60' :: _ => 0
  | _ :: _ => 1
  | [] => 0

/-- A name between backquotes up to the closing one. -/
def openQuotedIdentifier : List Char → Nat
  | '\x60' :: cs =>
    let body := pieces backquotedPiece cs
    match cs.drop body with
    | [] => body + 1
    | _ => body + 2
  | _ => 0

/-- A field pattern with a part that may still be completed. -/
def openIdPattern (cs : List Char) : Nat :=
  let n := idPattern cs
  let rest := cs.drop n
  n + max (openMark (fun c => c == '_' || c == '@') rest) (openQuotedIdentifier rest)

/-- A policy name with a colon behind it, which may still be a qualifier. -/
def openPolicyName (cs : List Char) : Nat :=
  let head := leading isPolicy cs
  match cs.drop head with
  | ':' :: _ => if head = 0 then 0 else head + 1
  | _ => head

/-! ## Shared Bytes -/

/-- How many items two lists share at the beginning. -/
def sharedItems : List UInt8 → List UInt8 → Nat
  | a :: as, b :: bs => if a = b then sharedItems as bs + 1 else 0
  | _, _ => 0

/-- How many bytes two texts still share in the characters that tell them apart. -/
def sharedBytes (same : Char → Char → Bool) (text cs : List Char) : Nat :=
  let n := shared same text cs
  match text.drop n, cs.drop n with
  | c :: _, d :: _ => sharedItems (String.utf8EncodeChar c) (String.utf8EncodeChar d)
  | _, _ => 0

end Scan

namespace Recognizer

/-! ## Reach -/

/-- How many characters of a text may still belong to an accepted text, apart
from those that are accepted already. -/
def openLength : Recognizer → List Char → Nat
  | .literal text, cs => Scan.shared (· == ·) text cs
  | .keyword word, cs => Scan.shared sameLetter word cs
  | .lineComment, cs => Scan.openLineComment cs
  | .blockComment, cs => Scan.openBlockComment cs
  | .unquotedSource, cs => Scan.openSource cs
  | .quotedString, cs => max (Scan.openSimpleString cs) (Scan.openTripleString cs)
  | .decimal, cs => Scan.openDecimal cs
  | .parameter, cs => Scan.openMark (· == '?') cs
  | .unquotedIdentifier, cs => Scan.openMark (fun c => c == '_' || c == '@') cs
  | .quotedIdentifier, cs => Scan.openQuotedIdentifier cs
  | .idPattern, cs => Scan.openIdPattern cs
  | .policyName, cs => Scan.openPolicyName cs
  | .whitespace, _ | .unknownCommand, _ | .integer, _ | .setting, _ => 0

/-- How many characters of a text some accepted text begins with. -/
def reach (r : Recognizer) (cs : List Char) : Nat :=
  max (r.openLength cs) (r.matchLength cs)

/-- Bytes of the next character that a fixed text shares with the text. A fixed
text in ASCII shares none. -/
def strayBytes : Recognizer → List Char → Nat
  | .literal text, cs => Scan.sharedBytes (· == ·) text cs
  | .keyword word, cs => Scan.sharedBytes sameLetter word cs
  | _, _ => 0

/-- The reach in bytes. -/
def reachSize (r : Recognizer) (cs : List Char) : Nat :=
  Text.size (cs.take (r.reach cs)) + r.strayBytes cs

end Recognizer

end PipeQuery
