-- SUMMARY: Reading JSON: strings with their escapes, numbers, and values of any depth.
import PipeQuery.Json.Basic
import PipeQuery.Text.Digit

/-! # Reading JSON

A reader takes what it reads from the front of a text and returns the rest.
Blanks may stand around every value and mark. A text that is no JSON, or that
goes on after its value, is refused. -/

namespace PipeQuery.Json

/-! ## Blanks -/

def isBlank (c : Char) : Bool :=
  c == ' ' || c == '\n' || c == '\t' || c == '\r'

/-- What is left after leading blanks. -/
def skipBlanks (cs : List Char) : List Char :=
  cs.dropWhile isBlank

/-! ## Strings -/

/-- What a character after a backslash stands for, apart from numbered ones. -/
def shortEscape? : Char → Option Char
  | '"' => some '"'
  | '\\' => some '\\'
  | '/' => some '/'
  | 'b' => some '\x08'
  | 'f' => some '\x0c'
  | 'n' => some '\n'
  | 'r' => some '\r'
  | 't' => some '\t'
  | _ => none

/-- Whether a number is the first half of a character. -/
def isHighHalf (n : Nat) : Bool := 0xD800 ≤ n && n < 0xDC00

/-- Whether a number is the second half of a character. -/
def isLowHalf (n : Nat) : Bool := 0xDC00 ≤ n && n < 0xE000

/-- The character that two halves make. -/
def joinHalves (high low : Nat) : Char :=
  Char.ofNat (0x10000 + (high - 0xD800) * 0x400 + (low - 0xDC00))

/-- What may stand inside a string, read at its beginning. -/
inductive Piece where
  /-- The closing quote. -/
  | close
  /-- A character, which took so many characters to write. -/
  | char (c : Char) (width : Nat)
  /-- Half a character. -/
  | half
  deriving DecidableEq, Repr

/-- The piece of a string at the beginning of a text. -/
def piece? : List Char → Option Piece
  | '"' :: _ => some .close
  | '\\' :: 'u' :: cs => do
    let (n, cs) ← Text.fixedDigits? 16 4 cs
    if isHighHalf n then
      match cs with
      | '\\' :: 'u' :: cs =>
        let (m, _) ← Text.fixedDigits? 16 4 cs
        if isLowHalf m then some (.char (joinHalves n m) 12) else some .half
      | _ => some .half
    else if isLowHalf n then some .half
    else some (.char (Char.ofNat n) 6)
  | '\\' :: c :: _ => (shortEscape? c).map (.char · 2)
  | c :: _ => if c.toNat < 32 ∨ c = '\\' then none else some (.char c 1)
  | [] => none

/-- Walks over a string after its opening quote: `pending` characters of the last
piece are still to be passed, `done` holds the characters so far, the last one
first, unless half a character was among them. -/
def stringFrom (done : Option (List Char)) : Nat → List Char → Option (Text × List Char)
  | _, [] => none
  | pending + 1, _ :: cs => stringFrom done pending cs
  | 0, c :: cs =>
    match piece? (c :: cs) with
    | none => none
    | some .close => some (done.map fun ds => String.ofList ds.reverse, cs)
    | some (.char d width) => stringFrom (done.map (d :: ·)) (width - 1) cs
    | some .half => stringFrom none 5 cs

/-- A string, read from its opening quote. -/
def string? : List Char → Option (Text × List Char)
  | '"' :: cs => stringFrom (some []) 0 cs
  | _ => none

/-! ## Numbers -/

/-- The digits at the beginning of a text, at least one. -/
def digits? (cs : List Char) : Option (List Char × List Char) :=
  match cs.takeWhile Char.isDigit with
  | [] => none
  | ds => some (ds, cs.dropWhile Char.isDigit)

/-- The digits before the point: a single zero, or digits without leading zero. -/
def whole? : List Char → Option (List Char × List Char)
  | '0' :: cs => some (['0'], cs)
  | cs => digits? cs

/-- A fraction with its point, or nothing. -/
def fraction? : List Char → Option (List Char × List Char)
  | '.' :: cs => do
    let (ds, cs) ← digits? cs
    return ('.' :: ds, cs)
  | cs => some ([], cs)

/-- An exponent with its mark, or nothing. -/
def exponent? : List Char → Option (List Char × List Char)
  | c :: cs => do
    if c = 'e' ∨ c = 'E' then
      let (sign, cs) := match cs with
        | '+' :: cs => (['+'], cs)
        | '-' :: cs => (['-'], cs)
        | cs => ([], cs)
      let (ds, cs) ← digits? cs
      return (c :: (sign ++ ds), cs)
    else return ([], c :: cs)
  | [] => some ([], [])

/-- A number. -/
def number? (cs : List Char) : Option (Number × List Char) := do
  let (negative, cs) := match cs with
    | '-' :: cs => (true, cs)
    | cs => (false, cs)
  let (ds, cs) ← whole? cs
  let (fraction, cs) ← fraction? cs
  let (exponent, cs) ← exponent? cs
  return ({ negative, whole := Text.digitsValue 10 ds, tail := fraction ++ exponent }, cs)

/-! ## Values -/

mutual

/-- A value. Each step of the readers uses up some fuel. -/
def value? : Nat → List Char → Option (Json × List Char)
  | 0, _ => none
  | fuel + 1, cs =>
    match skipBlanks cs with
    | 'n' :: 'u' :: 'l' :: 'l' :: cs => some (.null, cs)
    | 't' :: 'r' :: 'u' :: 'e' :: cs => some (.bool true, cs)
    | 'f' :: 'a' :: 'l' :: 's' :: 'e' :: cs => some (.bool false, cs)
    | '"' :: cs => do
      let (t, cs) ← string? ('"' :: cs)
      return (.string t, cs)
    | '[' :: cs =>
      match skipBlanks cs with
      | ']' :: cs => some (.array [], cs)
      | cs => items? fuel [] cs
    | '\x7b' :: cs =>
      match skipBlanks cs with
      | '\x7d' :: cs => some (.object [], cs)
      | cs => members? fuel [] cs
    | cs => do
      let (n, cs) ← number? cs
      return (.number n, cs)

/-- The items of an array up to its closing bracket. -/
def items? : Nat → List Json → List Char → Option (Json × List Char)
  | 0, _, _ => none
  | fuel + 1, done, cs =>
    match value? fuel cs with
    | none => none
    | some (v, cs) =>
      match skipBlanks cs with
      | ',' :: cs => items? fuel (v :: done) cs
      | ']' :: cs => some (.array (v :: done).reverse, cs)
      | _ => none

/-- The members of an object up to its closing brace. -/
def members? : Nat → List (Text × Json) → List Char → Option (Json × List Char)
  | 0, _, _ => none
  | fuel + 1, done, cs =>
    match string? (skipBlanks cs) with
    | none => none
    | some (k, cs) =>
      match skipBlanks cs with
      | ':' :: cs =>
        match value? fuel cs with
        | none => none
        | some (v, cs) =>
          match skipBlanks cs with
          | ',' :: cs => members? fuel ((k, v) :: done) cs
          | '\x7d' :: cs => some (.object ((k, v) :: done).reverse, cs)
          | _ => none
      | _ => none

end

/-- The value that a text writes, if it writes one and nothing else. A value
begins a step in front of every character at most twice. -/
def parse? (cs : List Char) : Option Json :=
  match value? (2 * cs.length + 2) cs with
  | some (v, rest) => if skipBlanks rest = [] then some v else none
  | none => none

end PipeQuery.Json
