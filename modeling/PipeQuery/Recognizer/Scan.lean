-- SUMMARY: Scanners that measure how much of a text a pattern takes: runs, repeated pieces, and the pieces of strings, numbers and names.
import PipeQuery.Recognizer.Basic

/-! # Scanners

A scanner measures from the beginning of a text, in characters, and answers 0
where its pattern does not apply. -/

namespace PipeQuery.Scan

open CharClass

/-! ## Runs and Pieces -/

/-- How many characters at the beginning belong to a class. -/
def leading (p : Char → Bool) (cs : List Char) : Nat :=
  (cs.takeWhile p).length

/-- Walks over pieces: `pending` characters of the last piece are still to be
passed, `taken` counts all pieces so far. -/
def piecesFrom (piece : List Char → Nat) : List Char → Nat → Nat → Nat
  | [], _, taken => taken
  | _ :: cs, pending + 1, taken => piecesFrom piece cs pending taken
  | c :: cs, 0, taken =>
    match piece (c :: cs) with
    | 0 => taken
    | n + 1 => piecesFrom piece cs n (taken + n + 1)

/-- How much of a text is taken piece after piece, each as long as `piece` says,
until a piece is empty. -/
def pieces (piece : List Char → Nat) (cs : List Char) : Nat :=
  piecesFrom piece cs 0 0

/-! ## Fixed Texts -/

/-- How many characters two texts share at the beginning. -/
def shared (same : Char → Char → Bool) : List Char → List Char → Nat
  | c :: cs, d :: ds => if same c d then shared same cs ds + 1 else 0
  | _, _ => 0

/-- A fixed text, if it is there as a whole. -/
def fixed (same : Char → Char → Bool) (text cs : List Char) : Nat :=
  if shared same text cs = text.length then text.length else 0

/-! ## Comments -/

/-- Two slashes and the rest of the line. -/
def lineComment : List Char → Nat
  | '/' :: '/' :: cs => 2 + leading (fun c => !isLineEnd c) cs
  | _ => 0

/-! ## Sources and Policies -/

/-- A source character, or a slash with a character that makes it no comment. -/
def sourcePiece : List Char → Nat
  | '/' :: c :: _ => if c = '*' ∨ c = '/' then 0 else 2
  | c :: _ => if isSource c then 1 else 0
  | [] => 0

/-- An index pattern. -/
def unquotedSource (cs : List Char) : Nat :=
  pieces sourcePiece cs

/-- A policy name, with a qualifier if a name follows the colon. -/
def policyName (cs : List Char) : Nat :=
  let head := leading isPolicy cs
  match cs.drop head with
  | ':' :: rest =>
    let tail := leading isPolicy rest
    if head = 0 ∨ tail = 0 then head else head + 1 + tail
  | _ => head

/-! ## Strings -/

/-- Whether a backslash may stand before a character. -/
def isEscaped (c : Char) : Bool :=
  c == 't' || c == 'n' || c == 'r' || c == 'T' || c == 'N' || c == 'R' || c == '"' || c == '\\'

/-- A plain character of a string, or an escape. -/
def stringPiece : List Char → Nat
  | '\\' :: c :: _ => if isEscaped c then 2 else 0
  | c :: _ => if c = '"' ∨ c = '\\' ∨ isLineEnd c then 0 else 1
  | [] => 0

/-- A string between single quotation marks. -/
def simpleString : List Char → Nat
  | '"' :: cs =>
    let body := pieces stringPiece cs
    match cs.drop body with
    | '"' :: _ => body + 2
    | _ => 0
  | _ => 0

/-- How many characters precede the first three quotation marks in a row. -/
def beforeTriple (count : Nat) : List Char → Option Nat
  | [] => none
  | c :: cs => if ['"', '"', '"'].isPrefixOf (c :: cs) then some count else beforeTriple (count + 1) cs

/-- A string between tripled quotation marks, which ends on its line. Up to two
more marks behind the closing ones belong to it. -/
def tripleString : List Char → Nat
  | '"' :: '"' :: '"' :: cs =>
    match beforeTriple 0 (cs.takeWhile fun c => !isLineEnd c) with
    | some body => body + 6 + min 2 (leading (· == '"') (cs.drop (body + 3)))
    | none => 0
  | _ => 0

/-- A string of either form. -/
def quotedString (cs : List Char) : Nat :=
  max (simpleString cs) (tripleString cs)

/-! ## Numbers -/

/-- Digits. -/
def digits (cs : List Char) : Nat :=
  leading Char.isDigit cs

/-- The sign of an exponent. -/
def sign : List Char → Nat
  | c :: _ => if c = '+' ∨ c = '-' then 1 else 0
  | [] => 0

/-- An exponent with its mark. -/
def exponent : List Char → Nat
  | c :: cs =>
    if c = 'e' ∨ c = 'E' then
      let n := digits (cs.drop (sign cs))
      if n = 0 then 0 else 1 + sign cs + n
    else 0
  | [] => 0

/-- A number with a point or an exponent. -/
def decimal (cs : List Char) : Nat :=
  let whole := digits cs
  match cs.drop whole with
  | '.' :: rest =>
    let fraction := digits rest
    if whole = 0 ∧ fraction = 0 then 0
    else whole + 1 + fraction + exponent (rest.drop fraction)
  | rest =>
    let exp := exponent rest
    if whole = 0 ∨ exp = 0 then 0 else whole + exp

/-! ## Names -/

/-- A parameter, by name or by number. -/
def parameter : List Char → Nat
  | '?' :: c :: cs =>
    if c.isAlpha then 2 + leading isWord cs
    else if c.isDigit then 2 + digits cs
    else 0
  | _ => 0

/-- A letter with a run of `body`, or an underscore or at sign with a run that
must not be empty. -/
def word (opens body : Char → Bool) : List Char → Nat
  | c :: cs =>
    if opens c then 1 + leading body cs
    else if c = '_' ∨ c = '@' then
      let n := leading body cs
      if n = 0 then 0 else 1 + n
    else 0
  | [] => 0

/-- A name without quotes. -/
def unquotedIdentifier (cs : List Char) : Nat :=
  word Char.isAlpha isWord cs

/-- A part of a field pattern without quotes. -/
def unquotedPattern (cs : List Char) : Nat :=
  word (fun c => c.isAlpha || c == '*') isWildcardWord cs

/-- Walks over a name between backquotes: `passed` characters are behind, and the
longest name so far took `accepted` of them. -/
def quotedIdentifierFrom (passed accepted : Nat) : List Char → Nat
  | '\x60' :: '\x60' :: cs =>
    quotedIdentifierFrom (passed + 2) (if 1 < passed then passed + 1 else accepted) cs
  | '\x60' :: _ => if 1 < passed then passed + 1 else accepted
  | _ :: cs => quotedIdentifierFrom (passed + 1) accepted cs
  | [] => accepted

/-- A name between backquotes. -/
def quotedIdentifier : List Char → Nat
  | '\x60' :: cs => quotedIdentifierFrom 1 0 cs
  | _ => 0

/-- A part of a field pattern. -/
def patternPiece (cs : List Char) : Nat :=
  max (unquotedPattern cs) (quotedIdentifier cs)

/-- A field pattern. -/
def idPattern (cs : List Char) : Nat :=
  pieces patternPiece cs

end PipeQuery.Scan
