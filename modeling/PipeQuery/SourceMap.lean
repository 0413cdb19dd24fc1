-- SUMMARY: A query text indexed by line: where its lines start, positions of offsets, and messages that quote the offending line.
import PipeQuery.Span

/-! # Source Maps

A text with the offsets of its lines. The line of an offset is found among them by
halving, and its column by counting the characters of the line in front of it. -/

namespace PipeQuery

/-! ## Line Starts -/

/-- One more character of a text, of which the line starts and the size are known
so far. -/
def Text.startsStep (s : Array Nat × Nat) (c : Char) : Array Nat × Nat :=
  if c = '\n' then (s.1.push (s.2 + 1), s.2 + 1) else (s.1, s.2 + c.utf8Size)

/-- Where the lines of a text start: at its beginning and behind each line feed. -/
def Text.lineStarts (cs : List Char) : Array Nat :=
  (cs.foldl startsStep (#[0], 0)).1

/-- Looks for a number among ascending ones between two indices. The answer is its
index, or as an error the index at which it would keep them ascending. -/
def search (xs : Array Nat) (x lo hi : Nat) (h : hi ≤ xs.size) : Except Nat Nat :=
  if hlt : lo < hi then
    let mid := lo + (hi - lo) / 2
    have hmid : mid < hi := by omega
    match compare xs[mid] x with
    | .lt => search xs x (mid + 1) hi h
    | .eq => .ok mid
    | .gt => search xs x lo mid (Nat.le_trans (Nat.le_of_lt hmid) h)
  else .error lo
termination_by hi - lo

/-- A query text and where its lines start. -/
structure SourceMap where
  text : List Char
  lineStarts : Array Nat
  deriving DecidableEq, Repr

namespace SourceMap

def ofText (text : List Char) : SourceMap :=
  { text, lineStarts := Text.lineStarts text }

def lineCount (m : SourceMap) : Nat := m.lineStarts.size

/-- A line without the carriage returns at its end. -/
def trimReturns (line : List Char) : List Char :=
  (line.reverse.dropWhile (· == '\r')).reverse

/-- A line by its number, counted from 1. -/
def line? (m : SourceMap) (number : Nat) : Option (List Char) :=
  if number = 0 then none
  else do
    let start ← m.lineStarts[number - 1]?
    let stop :=
      match m.lineStarts[number]? with
      | some next => next - 1
      | none => Text.size m.text
    return trimReturns ((Text.slice? start stop m.text).getD [])

/-! ## Positions -/

/-- The index of the line that an offset lies in. -/
def lineIndex (m : SourceMap) (offset : Nat) : Nat :=
  match search m.lineStarts offset 0 m.lineStarts.size (Nat.le_refl _) with
  | .ok exact => exact
  | .error next => next - 1

/-- The characters of a line in front of an offset. -/
def lineBefore (m : SourceMap) (index offset : Nat) : List Char :=
  (Text.slice? (m.lineStarts.getD index 0) offset m.text).getD []

/-- The position of an offset. Behind the end of the text it is the end, and
inside a character it is the start of that character. -/
def positionAt (m : SourceMap) (offset : Nat) : Position :=
  let offset := Text.floorBoundary m.text (min offset (Text.size m.text))
  let index := m.lineIndex offset
  { offset, line := index + 1, column := (m.lineBefore index offset).length + 1 }

/-! ## Messages -/

def row (count : Nat) (c : Char) : String :=
  String.ofList (List.replicate count c)

/-- How many characters of its first line a span underlines, at least one. -/
def underlineWidth (line : List Char) (s : Span) : Nat :=
  let width :=
    if s.start.line = s.stop.line then s.stop.column - s.start.column
    else line.length + 1 - s.start.column
  max width 1

/-- The first line of a span, with the span underlined. -/
def excerpt (line : List Char) (s : Span) : String :=
  let number := toString s.start.line
  let gutter := row number.length ' '
  let indent := row (s.start.column - 1) ' '
  let underline := row (underlineWidth line s) '^'
  s!"   {gutter} |\n" ++
  s!"{number} | {String.ofList line}\n" ++
  s!"   {gutter} | {indent}{underline}\n"

/-- A message about a span, with the line where the span starts if there is one. -/
def formatError (m : SourceMap) (s : Span) (message : String) : String :=
  s!"Error: {message}\n  --> {s.start.render}\n" ++
  match m.line? s.start.line with
  | some line => excerpt line s
  | none => ""

end SourceMap

end PipeQuery
