-- SUMMARY: Reading TOML: keys, values of any form, and documents line by line.
import PipeQuery.Toml.Number
import PipeQuery.Toml.Table
import PipeQuery.Toml.Text

/-! # Reading TOML -/

namespace PipeQuery.Toml

/-- How many keys may be joined by dots, and how many arrays and tables may be
nested in one value. -/
def maxDepth : Nat := 79

/-! ## Blanks -/

def skipBlanks (cs : List Char) : List Char := cs.dropWhile isBlank

/-- What is left behind blanks and a comment. -/
def skipComment (cs : List Char) : List Char :=
  match skipBlanks cs with
  | '#' :: cs => cs.dropWhile isPrintable
  | cs => cs

/-- What is left behind the end of a line, with the blanks and the comment that may
stand there. -/
def endLine? (cs : List Char) : Option (List Char) :=
  match skipComment cs with
  | [] => some []
  | cs => afterLineEnd? cs

/-- What is left behind any number of blanks, comments and line ends. -/
def skipLines : Nat → List Char → List Char
  | 0, cs => cs
  | fuel + 1, cs =>
    match afterLineEnd? (skipComment cs) with
    | some cs => skipLines fuel cs
    | none => skipComment cs

/-! ## Keys -/

/-- Whether a character may stand in a key without quotes. -/
def isKeyChar (c : Char) : Bool := c.isAlphanum || c == '_' || c == '-'

/-- A key without dots. -/
def simpleKey? : List Char → Option (String × List Char)
  | '"' :: cs => lineString? '"' cs
  | '\x27' :: cs => lineString? '\x27' cs
  | cs =>
    match cs.takeWhile isKeyChar with
    | [] => none
    | key => some (String.ofList key, cs.dropWhile isKeyChar)

/-- At most so many keys joined by dots, with the blanks around them: all but the
last, and the last. -/
def key? : Nat → List Char → Option ((List String × String) × List Char)
  | 0, _ => none
  | fuel + 1, cs => do
    let (key, cs) ← simpleKey? (skipBlanks cs)
    match skipBlanks cs with
    | '.' :: cs =>
      let ((keys, last), cs) ← key? fuel cs
      return ((key :: keys, last), cs)
    | cs => return (([], key), cs)

/-- The keys in front of a value, and their equals sign. -/
def keyAndSign? (cs : List Char) : Option ((List String × String) × List Char) := do
  match ← key? maxDepth cs with
  | (key, '=' :: cs) => return (key, skipBlanks cs)
  | _ => none

/-! ## Values -/

/-- The items of an array up to its closing bracket, after those in `done`, the
last one first. -/
def itemsFrom (value? : List Char → Option (Toml × List Char)) :
    Nat → List Toml → List Char → Option (Toml × List Char)
  | 0, _, _ => none
  | fuel + 1, done, cs =>
    match skipLines fuel cs with
    | ']' :: cs => some (.array done.reverse, cs)
    | cs => do
      let (v, cs) ← value? cs
      match skipLines fuel cs with
      | ',' :: cs => itemsFrom value? fuel (v :: done) cs
      | ']' :: cs => return (.array (v :: done).reverse, cs)
      | _ => none

/-- The members of a table that is written as a value, up to its closing brace. -/
def membersFrom (value? : List Char → Option (Toml × List Char)) :
    Nat → Toml → List Char → Option (Toml × List Char)
  | 0, _, _ => none
  | fuel + 1, t, cs => do
    let ((keys, key), cs) ← keyAndSign? cs
    let (v, cs) ← value? cs
    let t ← assign? keys key v t
    match skipBlanks cs with
    | ',' :: cs => membersFrom value? fuel t cs
    | '\x7d' :: cs => return (t, cs)
    | _ => none

/-- A value with at most so many arrays and tables inside each other. -/
def value? (depth : Nat) (cs : List Char) : Option (Toml × List Char) :=
  match cs, depth with
  | '"' :: _, _ | '\x27' :: _, _ => (string? cs).map fun (s, cs) => (.string s, cs)
  | 't' :: 'r' :: 'u' :: 'e' :: cs, _ => some (.bool true, cs)
  | 'f' :: 'a' :: 'l' :: 's' :: 'e' :: cs, _ => some (.bool false, cs)
  | '[' :: _, 0 | '\x7b' :: _, 0 => none
  | '[' :: cs, depth + 1 => itemsFrom (value? depth) (cs.length + 1) [] cs
  | '\x7b' :: cs, depth + 1 =>
    match skipBlanks cs with
    | '\x7d' :: cs => some (.table .inline [], cs)
    | cs => membersFrom (value? depth) (cs.length + 1) (.table .inline []) cs
  | cs, _ => numberOrDate? cs

/-! ## Documents -/

/-- A document in the middle of its lines. -/
structure Document where
  root : Toml
  /-- The keys of the last header. -/
  path : List String

/-- Reads a header with so many brackets on either side, behind the first of them. -/
def header? (brackets : List Char) (open? : String → Toml → Option Toml) (d : Document)
    (cs : List Char) : Option (Document × List Char) := do
  let ((keys, key), cs) ← key? maxDepth cs
  let root ← within? .implied (open? key) keys d.root
  if brackets.isPrefixOf cs then
    return ({ root, path := keys ++ [key] }, ← endLine? (cs.drop brackets.length))
  else none

/-- Reads a line with a key and its value. -/
def entry? (d : Document) (cs : List Char) : Option (Document × List Char) := do
  let ((keys, key), cs) ← keyAndSign? cs
  let (v, cs) ← value? maxDepth cs
  let root ← within? .implied (assign? keys key v) d.path d.root
  return ({ d with root }, ← endLine? cs)

/-- Reads a document line by line. -/
def lines? : Nat → Document → List Char → Option Toml
  | 0, _, _ => none
  | fuel + 1, d, cs =>
    match skipLines fuel cs with
    | [] => some d.root
    | '[' :: '[' :: cs => do
      let (d, cs) ← header? [']', ']'] openItem? d cs
      lines? fuel d cs
    | '[' :: cs => do
      let (d, cs) ← header? [']'] openTable? d cs
      lines? fuel d cs
    | cs => do
      let (d, cs) ← entry? d cs
      lines? fuel d cs

/-- The document that a text writes. A mark of the byte order may open it. -/
def parse? (cs : List Char) : Option Toml :=
  let cs :=
    match cs with
    | '\ufeff' :: cs => cs
    | cs => cs
  lines? (cs.length + 1) { root := .table .header [], path := [] } cs

end PipeQuery.Toml
