-- SUMMARY: How many bytes each recognizer accepts, measured by loops over indices.
import PipeQuery.Bytes.Basic
import PipeQuery.Recognizer.Basic

/-! # Matches in Bytes

The scanners as loops over an index. What is read without a test before it is a checked read, so
each answer also says that no index was out of range. -/

namespace PipeQuery.Bytes

open CharClass Scan

/-! ## Fixed Texts -/

/-- A fixed text, if its bytes are there as a whole. -/
def fixed (same : Char → Char → Bool) (text : List Char) (bs : Bytes) : Nat :=
  Scan.fixed same (Text.bytes text).chars bs.chars

/-! ## Comments -/

/-- Two slashes and the rest of the line. -/
def lineComment (bs : Bytes) : Nat :=
  if bs.beginsWith ['/', '/'] then 2 + bs.run 2 (fun c => !isLineEnd c) else 0

/-- Where a comment body ends in which another comment opens at an index, if that one is closed. -/
def endBehindNested (ends : Array (Option Nat)) (i : Nat) : Checked (Option Nat) := do
  match ← Checked.entry ends (i + 2) with
  | some inner => Checked.entry ends inner
  | none => return none

/-- Where a comment body ends that begins at an index, read off the ends of the bodies that begin
behind it: at the first star and slash, else behind a comment inside that is closed, else where
the body ends that begins one byte later. -/
def bodyEnd (bs : Bytes) (ends : Array (Option Nat)) (i : Nat) : Checked (Option Nat) := do
  let rest ← bs.suffix i
  if rest.beginsWith ['*', '/'] then
    return some (i + 2)
  else
    let nested ← if rest.beginsWith ['/', '*'] then endBehindNested ends i else pure none
    return nested.or (← Checked.entry ends (i + 1))

/-- Fills in the ends of the bodies that begin before an index, the last one first. -/
def fillEnds (bs : Bytes) : Nat → Array (Option Nat) → Checked (Array (Option Nat))
  | 0, ends => return ends
  | i + 1, ends => do
    let stop ← bs.bodyEnd ends i
    bs.fillEnds i (← Checked.replace ends i stop)

/-- Where a comment body ends, for every index at which one may begin. -/
def bodyEnds (bs : Bytes) : Checked (Array (Option Nat)) :=
  bs.fillEnds bs.size (Array.replicate (bs.size + 1) none)

def blockComment (bs : Bytes) : Checked Nat :=
  if bs.beginsWith ['/', '*'] then do
    let ends ← bs.bodyEnds
    return ends[2]?.join.getD 0
  else
    return 0

/-! ## Sources and Policies -/

/-- Where an index pattern ends that goes up to index `i` at least. -/
def sourceFrom (bs : Bytes) (i : Nat) : Checked Nat :=
  if _ : i < bs.size then do
    let c ← bs.read i
    if isSource c then
      bs.sourceFrom (i + 1)
    else if c = '/' then
      match bs.get? (i + 1) with
      | some next => if next = '*' ∨ next = '/' then return i else bs.sourceFrom (i + 2)
      | none => return i
    else
      return i
  else
    return i
termination_by bs.size - i

def unquotedSource (bs : Bytes) : Checked Nat :=
  bs.sourceFrom 0

/-- A policy name, with a qualifier if a name follows the colon. -/
def policyName (bs : Bytes) : Nat :=
  let head := bs.run 0 isPolicy
  if head = 0 then 0
  else if bs.get? head = some ':' then
    let tail := bs.run (head + 1) isPolicy
    if 0 < tail then head + 1 + tail else head
  else head

/-! ## Strings -/

/-- Goes on with a string behind its first mark, and answers where it ends. -/
def simpleStringFrom (bs : Bytes) (i : Nat) : Checked Nat :=
  if _ : i < bs.size then do
    let c ← bs.read i
    if c = '"' then return i + 1
    else if c = '\\' then
      if (bs.get? (i + 1)).any isEscaped then bs.simpleStringFrom (i + 2) else return 0
    else if isLineEnd c then return 0
    else bs.simpleStringFrom (i + 1)
  else
    return 0
termination_by bs.size - i

def simpleString (bs : Bytes) : Checked Nat :=
  if bs.get? 0 = some '"' then bs.simpleStringFrom 1 else return 0

/-- Goes on with a string behind its first three marks, and answers where it ends. -/
def tripleStringFrom (bs : Bytes) (i : Nat) : Checked Nat :=
  if _ : i < bs.size then do
    let rest ← bs.suffix i
    if rest.beginsWith ['"', '"', '"'] then
      return i + 3 + min (bs.run (i + 3) (· == '"')) 2
    else if isLineEnd (← bs.read i) then return 0
    else bs.tripleStringFrom (i + 1)
  else
    return 0
termination_by bs.size - i

def tripleString (bs : Bytes) : Checked Nat :=
  if bs.beginsWith ['"', '"', '"'] then bs.tripleStringFrom 3 else return 0

/-- A string of either form. -/
def quotedString (bs : Bytes) : Checked Nat :=
  return max (← bs.simpleString) (← bs.tripleString)

/-! ## Numbers -/

def sign (bs : Bytes) (start : Nat) : Nat :=
  if bs.get? start = some '+' ∨ bs.get? start = some '-' then 1 else 0

def exponent (bs : Bytes) (start : Nat) : Nat :=
  if bs.get? start = some 'e' ∨ bs.get? start = some 'E' then
    let sign := bs.sign (start + 1)
    let digits := bs.run (start + 1 + sign) Char.isDigit
    if digits = 0 then 0 else 1 + sign + digits
  else 0

/-- A number with a point or an exponent. -/
def decimal (bs : Bytes) : Nat :=
  let whole := bs.run 0 Char.isDigit
  if 0 < whole then
    let exp := bs.exponent whole
    let best := if 0 < exp then whole + exp else 0
    if bs.get? whole = some '.' then
      let stop := whole + 1 + bs.run (whole + 1) Char.isDigit
      max best (stop + bs.exponent stop)
    else best
  else if bs.get? 0 = some '.' then
    let fraction := bs.run 1 Char.isDigit
    if 0 < fraction then 1 + fraction + bs.exponent (1 + fraction) else 0
  else 0

/-! ## Names -/

/-- A parameter, by name or by number. -/
def parameter (bs : Bytes) : Nat :=
  if bs.get? 0 = some '?' then
    match bs.get? 1 with
    | some c =>
      if c.isAlpha then 2 + bs.run 2 isWord
      else if c.isDigit then 1 + bs.run 1 Char.isDigit
      else 0
    | none => 0
  else 0

/-- A letter with a run of `body`, or an underscore or at sign with a run that
must not be empty. -/
def word (opens body : Char → Bool) (bs : Bytes) : Nat :=
  match bs.get? 0 with
  | some c =>
    if opens c then 1 + bs.run 1 body
    else if c = '_' ∨ c = '@' then
      let n := bs.run 1 body
      if n = 0 then 0 else 1 + n
    else 0
  | none => 0

def unquotedIdentifier (bs : Bytes) : Nat :=
  bs.word Char.isAlpha isWord

/-- A part of a field pattern without quotes. -/
def unquotedPattern (bs : Bytes) : Nat :=
  bs.word (fun c => c.isAlpha || c == '*') isWildcardWord

/-- Goes on with a name behind its first backquote: `blocks` characters or doubled backquotes are
behind, and the longest name so far ends at `accepted`. -/
def quotedIdentifierFrom (bs : Bytes) (i blocks accepted : Nat) : Checked Nat :=
  if _ : i < bs.size then do
    let c ← bs.read i
    if c = '\x60' then
      let accepted := if 0 < blocks then i + 1 else accepted
      if bs.get? (i + 1) = some '\x60' then bs.quotedIdentifierFrom (i + 2) (blocks + 1) accepted
      else return accepted
    else bs.quotedIdentifierFrom (i + 1) (blocks + 1) accepted
  else
    return accepted
termination_by bs.size - i

def quotedIdentifier (bs : Bytes) : Checked Nat :=
  if bs.get? 0 = some '\x60' then bs.quotedIdentifierFrom 1 0 0 else return 0

/-- Where a field pattern ends that goes up to index `i` at least. At the end of the bytes no part
follows, so that the test before a further turn always holds. -/
def idPatternFrom (bs : Bytes) (i : Nat) : Checked Nat := do
  let rest ← bs.suffix i
  let piece := max rest.unquotedPattern (← rest.quotedIdentifier)
  if _ : 0 < piece ∧ i < bs.size then bs.idPatternFrom (i + piece) else return i
termination_by bs.size - i

def idPattern (bs : Bytes) : Checked Nat :=
  bs.idPatternFrom 0

end PipeQuery.Bytes

namespace PipeQuery.Recognizer

open CharClass

/-- How many bytes at the beginning the recognizer accepts. -/
def matchBytes : Recognizer → Bytes → Checked Nat
  | .literal text, bs => return bs.fixed (· == ·) text
  | .keyword word, bs => return bs.fixed sameLetter word
  | .lineComment, bs => return bs.lineComment
  | .blockComment, bs => bs.blockComment
  | .whitespace, bs => return bs.run 0 isBlank
  | .unknownCommand, bs => return bs.run 0 isCommandWord
  | .unquotedSource, bs => bs.unquotedSource
  | .quotedString, bs => bs.quotedString
  | .integer, bs => return bs.run 0 Char.isDigit
  | .decimal, bs => return bs.decimal
  | .parameter, bs => return bs.parameter
  | .unquotedIdentifier, bs => return bs.unquotedIdentifier
  | .quotedIdentifier, bs => bs.quotedIdentifier
  | .idPattern, bs => bs.idPattern
  | .policyName, bs => return bs.policyName
  | .setting, bs => return bs.run 0 isSetting

end PipeQuery.Recognizer
