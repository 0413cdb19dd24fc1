-- SUMMARY: How many bytes go on fitting each recognizer, whether or not they are accepted in the end.
import PipeQuery.Bytes.Scan
import PipeQuery.Recognizer.Reach

/-! # Reach in Bytes -/

namespace PipeQuery.Bytes

open CharClass Scan

/-! ## Open Patterns -/

/-- How many bytes are shared with a fixed text. -/
def shared (same : Char → Char → Bool) (text : List Char) (bs : Bytes) : Nat :=
  Scan.shared same (Text.bytes text).chars bs.chars

/-- A comment that may still be opened, and what an opened block swallows. -/
def openBlockComment (bs : Bytes) : Nat :=
  if bs.beginsWith ['/', '*'] then bs.size else if bs.beginsWith ['/'] then 1 else 0

/-- The slash that may still open a line comment. -/
def openLineComment (bs : Bytes) : Nat :=
  if bs.beginsWith ['/'] then 1 else 0

/-- An index pattern with a slash behind it, which may still go on. -/
def openSource (bs : Bytes) : Checked Nat := do
  let n ← bs.unquotedSource
  return n + if bs.get? n = some '/' then 1 else 0

/-- Goes on with a string behind its first mark up to where it is closed or cannot be closed. -/
def openSimpleStringFrom (bs : Bytes) (i : Nat) : Checked Nat :=
  if _ : i < bs.size then do
    let c ← bs.read i
    if c = '"' then return i + 1
    else if c = '\\' then
      match bs.get? (i + 1) with
      | some next => if isEscaped next then bs.openSimpleStringFrom (i + 2) else return i + 1
      | none => return bs.size
    else if isLineEnd c then return i
    else bs.openSimpleStringFrom (i + 1)
  else
    return bs.size
termination_by bs.size - i

/-- A string up to its closing mark, or up to where it can no longer be closed. -/
def openSimpleString (bs : Bytes) : Checked Nat :=
  if bs.get? 0 = some '"' then bs.openSimpleStringFrom 1 else return 0

/-- A string between tripled marks up to the end of its line. -/
def openTripleString (bs : Bytes) : Nat :=
  let marks := min (bs.run 0 (· == '"')) 3
  if marks < 3 then marks else 3 + bs.run 3 (fun c => !isLineEnd c)

/-- A mantissa with an exponent behind it that may still lack its digits. -/
def withOpenExponent (bs : Bytes) (stop : Nat) : Nat :=
  if bs.get? stop = some 'e' ∨ bs.get? stop = some 'E' then
    let sign := bs.sign (stop + 1)
    stop + 1 + sign + bs.run (stop + 1 + sign) Char.isDigit
  else stop

/-- A number that may still lack its point, its fraction or its exponent. -/
def openDecimal (bs : Bytes) : Nat :=
  let whole := bs.run 0 Char.isDigit
  if 0 < whole then
    if bs.get? whole = some '.' then
      bs.withOpenExponent (whole + 1 + bs.run (whole + 1) Char.isDigit)
    else bs.withOpenExponent whole
  else if bs.get? 0 = some '.' then
    let fraction := bs.run 1 Char.isDigit
    if fraction = 0 then 1 else bs.withOpenExponent (1 + fraction)
  else 0

/-- The mark that may still begin a name. -/
def openMark (p : Char → Bool) (bs : Bytes) : Nat :=
  if (bs.get? 0).any p then 1 else 0

/-- Goes on with a name behind its first backquote up to the closing one. -/
def openQuotedIdentifierFrom (bs : Bytes) (i : Nat) : Checked Nat :=
  if _ : i < bs.size then do
    let c ← bs.read i
    if c ≠ '\x60' then bs.openQuotedIdentifierFrom (i + 1)
    else if bs.get? (i + 1) = some '\x60' then bs.openQuotedIdentifierFrom (i + 2)
    else return i + 1
  else
    return bs.size
termination_by bs.size - i

/-- A name between backquotes up to the closing one. -/
def openQuotedIdentifier (bs : Bytes) : Checked Nat :=
  if bs.get? 0 = some '\x60' then bs.openQuotedIdentifierFrom 1 else return 0

/-- A field pattern with a part that may still be completed. -/
def openIdPattern (bs : Bytes) : Checked Nat := do
  let n ← bs.idPattern
  let rest ← bs.suffix n
  match rest.get? 0 with
  | some '_' | some '@' => return n + 1
  | some '\x60' => return n + (← rest.openQuotedIdentifier)
  | _ => return n

/-- A policy name with a colon behind it, which may still be a qualifier. -/
def openPolicyName (bs : Bytes) : Nat :=
  let head := bs.run 0 isPolicy
  head + if 0 < head ∧ bs.get? head = some ':' then 1 else 0

end PipeQuery.Bytes

namespace PipeQuery.Recognizer

open CharClass

/-- How many bytes may still belong to an accepted text, apart from those that
are accepted already. -/
def openBytes : Recognizer → Bytes → Checked Nat
  | .literal text, bs => return bs.shared (· == ·) text
  | .keyword word, bs => return bs.shared sameLetter word
  | .lineComment, bs => return bs.openLineComment
  | .blockComment, bs => return bs.openBlockComment
  | .unquotedSource, bs => bs.openSource
  | .quotedString, bs => return max (← bs.openSimpleString) bs.openTripleString
  | .decimal, bs => return bs.openDecimal
  | .parameter, bs => return bs.openMark (· == '?')
  | .unquotedIdentifier, bs => return bs.openMark fun c => c == '_' || c == '@'
  | .quotedIdentifier, bs => bs.openQuotedIdentifier
  | .idPattern, bs => bs.openIdPattern
  | .policyName, bs => return bs.openPolicyName
  | .whitespace, _ | .unknownCommand, _ | .integer, _ | .setting, _ => return 0

/-- How many bytes some accepted text begins with. -/
def reachBytes (r : Recognizer) (bs : Bytes) : Checked Nat :=
  return max (← r.openBytes bs) (← r.matchBytes bs)

end PipeQuery.Recognizer
