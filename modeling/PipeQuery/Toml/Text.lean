-- SUMMARY: TOML strings: basic and literal ones, on one line or on several.
import PipeQuery.Text.Digit
import PipeQuery.Toml.Basic

/-! # TOML Strings

Basic strings have escapes, literal strings stand for themselves. With three
quotes on either side a string may go on over several lines; a line end right
behind the opening quotes does not count. -/

namespace PipeQuery.Toml

/-- Whether a character may stand for itself in strings and comments. -/
def isPrintable (c : Char) : Bool :=
  c == '\t' || (32 ≤ c.toNat && c.toNat != 127)

/-- A blank within a line. -/
def isBlank (c : Char) : Bool := c == ' ' || c == '\t'

/-- What is left behind a line end. -/
def afterLineEnd? : List Char → Option (List Char)
  | '\n' :: cs => some cs
  | '\r' :: '\n' :: cs => some cs
  | _ => none

/-! ## Escapes -/

/-- The character whose number exactly `width` hexadecimal digits give. -/
def numbered? (width : Nat) (cs : List Char) : Option (Char × List Char) := do
  let (n, cs) ← Text.fixedDigits? 16 width cs
  if n.isValidChar then return (Char.ofNat n, cs) else none

/-- The character that an escape stands for, read behind its backslash. -/
def escape? : List Char → Option (Char × List Char)
  | 'b' :: cs => some ('\x08', cs)
  | 't' :: cs => some ('\t', cs)
  | 'n' :: cs => some ('\n', cs)
  | 'f' :: cs => some ('\x0c', cs)
  | 'r' :: cs => some ('\r', cs)
  | '"' :: cs => some ('"', cs)
  | '\\' :: cs => some ('\\', cs)
  | 'u' :: cs => numbered? 4 cs
  | 'U' :: cs => numbered? 8 cs
  | _ => none

/-- What is left behind blanks and line ends. A carriage return on its own is no line
end. -/
def skipFold : List Char → List Char
  | '\r' :: '\n' :: cs => skipFold cs
  | c :: cs => if isBlank c || c == '\n' then skipFold cs else c :: cs
  | [] => []

/-- What is left behind a line end and all blanks and line ends around it. This is
what a backslash at the end of a line takes away. -/
def afterFold? (cs : List Char) : Option (List Char) :=
  (afterLineEnd? (cs.dropWhile isBlank)).map skipFold

/-! ## Strings -/

/-- A string in the middle of its characters, of which `done` are read, the last
one first. Each character uses up some fuel. -/
def stringFrom (quote : Char) (lines : Bool) :
    Nat → List Char → List Char → Option (String × List Char)
  | 0, _, _ => none
  | _, _, [] => none
  | fuel + 1, done, c :: cs =>
    if c = quote then
      if lines then
        match cs with
        | d :: e :: cs =>
          if d = quote ∧ e = quote then
            -- Up to two quotes may stand in front of the closing ones.
            let more := (cs.take 2).takeWhile (· == quote)
            some (String.ofList (more ++ done).reverse, cs.drop more.length)
          else stringFrom quote lines fuel (c :: done) (d :: e :: cs)
        | cs => stringFrom quote lines fuel (c :: done) cs
      else some (String.ofList done.reverse, cs)
    else if c = '\\' ∧ quote = '"' then
      match if lines then afterFold? cs else none with
      | some cs => stringFrom quote lines fuel done cs
      | none =>
        match escape? cs with
        | some (d, cs) => stringFrom quote lines fuel (d :: done) cs
        | none => none
    else if isPrintable c then stringFrom quote lines fuel (c :: done) cs
    else if lines then
      match afterLineEnd? (c :: cs) with
      | some cs => stringFrom quote lines fuel ('\n' :: done) cs
      | none => none
    else none

/-- A string on one line, read behind its opening quote. -/
def lineString? (quote : Char) (cs : List Char) : Option (String × List Char) :=
  stringFrom quote false (cs.length + 1) [] cs

/-- A string, read from its first quote. -/
def string? : List Char → Option (String × List Char)
  | a :: b :: c :: cs =>
    if b = a ∧ c = a then
      stringFrom a true (cs.length + 1) [] ((afterLineEnd? cs).getD cs)
    else lineString? a (b :: c :: cs)
  | a :: cs => lineString? a cs
  | [] => none

end PipeQuery.Toml
