-- SUMMARY: TOML numbers and dates: digits with separators, four bases, fractions and exponents, calendar checks.
import PipeQuery.Text.Digit
import PipeQuery.Toml.Basic

/-! # TOML Numbers and Dates

A reader takes what it reads from the front of a text and returns the rest. -/

namespace PipeQuery.Toml

open Text

/-! ## Digits -/

/-- More digits, each of which may stand behind an underscore. -/
def moreDigits (isDigit : Char → Bool) (done : List Char) :
    List Char → Option (List Char × List Char)
  | '_' :: c :: cs => if isDigit c then moreDigits isDigit (c :: done) cs else none
  | c :: cs =>
    if isDigit c then moreDigits isDigit (c :: done) cs
    else if c = '_' then none
    else some (done.reverse, c :: cs)
  | [] => some (done.reverse, [])

/-- Digits, at least one, without the single underscores between them. -/
def digits? (isDigit : Char → Bool) : List Char → Option (List Char × List Char)
  | c :: cs => if isDigit c then moreDigits isDigit [c] cs else none
  | [] => none

def sign (cs : List Char) : Bool × List Char :=
  match cs with
  | '-' :: cs => (true, cs)
  | '+' :: cs => (false, cs)
  | cs => (false, cs)

/-! ## Integers -/

/-- An integer of 64 bits, from its sign and its size. -/
def integerOf? (negative : Bool) (size : Nat) : Option Toml :=
  let n : Int := if negative then -size else size
  if Int64.minValue.toInt ≤ n ∧ n ≤ Int64.maxValue.toInt then some (.integer n) else none

/-- The digits of an integer after the mark of its base. -/
def based? (base : Nat) (cs : List Char) : Option (Toml × List Char) := do
  let (ds, cs) ← digits? (isDigitIn base) cs
  return (← integerOf? false (digitsValue base ds), cs)

/-! ## Numbers -/

/-- Whether digits, scaled by a power of ten, are too large for a double. The
bound lies halfway between the largest double and the next power of two; scales
beyond 310 digits are not worked out. -/
def isHuge (ds : List Char) (scale : Int) : Bool :=
  let n := digitsValue 10 ds
  let width : Int := (Nat.toDigits 10 n).length + scale
  let bound := Nat.pow 2 1024 - Nat.pow 2 970
  if n = 0 ∨ width < 308 then false
  else if 310 < width then true
  else if 0 ≤ scale then bound ≤ n * Nat.pow 10 scale.toNat
  else bound * Nat.pow 10 (-scale).toNat ≤ n

/-- The digits before the point: a single zero, or digits without leading zero. -/
def whole? : List Char → Option (List Char × List Char)
  | '0' :: cs => some (['0'], cs)
  | cs => digits? Char.isDigit cs

/-- A fraction without its point, or nothing. -/
def fraction? : List Char → Option (List Char × List Char)
  | '.' :: cs => digits? Char.isDigit cs
  | cs => some ([], cs)

/-- An exponent, or nothing. -/
def exponent? : List Char → Option (Option Int × List Char)
  | c :: cs => do
    if c = 'e' ∨ c = 'E' then
      let (negative, cs) := sign cs
      let (ds, cs) ← digits? Char.isDigit cs
      let n := digitsValue 10 ds
      return (some (if negative then -n else n), cs)
    else return (none, c :: cs)
  | [] => some (none, [])

/-- A decimal number. It is a float if it has a fraction or an exponent, and must
not be beyond the largest one. -/
def decimal? (cs : List Char) : Option (Toml × List Char) := do
  let (negative, body) := sign cs
  let (whole, rest) ← whole? body
  let (fraction, rest) ← fraction? rest
  let (exponent, rest) ← exponent? rest
  if fraction = [] ∧ exponent = none then
    return (← integerOf? negative (digitsValue 10 whole), rest)
  else if !negative && isHuge (whole ++ fraction) (exponent.getD 0 - fraction.length) then none
  else return (.float (cs.take (cs.length - rest.length)), rest)

/-- A number. -/
def number? (cs : List Char) : Option (Toml × List Char) :=
  match cs with
  | '0' :: 'x' :: cs => based? 16 cs
  | '0' :: 'o' :: cs => based? 8 cs
  | '0' :: 'b' :: cs => based? 2 cs
  | cs =>
    match (sign cs).2 with
    | 'i' :: 'n' :: 'f' :: rest | 'n' :: 'a' :: 'n' :: rest =>
      some (.float (cs.take (cs.length - rest.length)), rest)
    | _ => decimal? cs

/-! ## Dates -/

/-- A mark and the number of two digits behind it, from `least` to `most`. -/
def marked? (mark : Char) (least most : Nat) : List Char → Option (Nat × List Char)
  | c :: cs => do
    let (n, cs) ← if c = mark then fixedDigits? 10 2 cs else none
    if least ≤ n ∧ n ≤ most then return (n, cs) else none
  | [] => none

/-- How many days a month of a year has. -/
def daysIn (year month : Nat) : Nat :=
  if month = 2 then
    if year % 4 = 0 ∧ (year % 100 ≠ 0 ∨ year % 400 = 0) then 29 else 28
  else if month = 4 ∨ month = 6 ∨ month = 9 ∨ month = 11 then 30
  else 31

/-- What is left behind a time of day. -/
def afterTime? (cs : List Char) : Option (List Char) := do
  let (hour, cs) ← fixedDigits? 10 2 cs
  let (_, cs) ← marked? ':' 0 59 cs
  let (_, cs) ← marked? ':' 0 60 cs
  if 23 < hour then none
  match cs with
  | '.' :: c :: cs => if c.isDigit then return cs.dropWhile Char.isDigit else none
  | cs => return cs

/-- What is left behind the distance from Greenwich, or nothing. -/
def afterZone? (cs : List Char) : Option (List Char) :=
  match cs with
  | c :: cs =>
    if c = 'Z' ∨ c = 'z' then some cs
    else if c = '+' ∨ c = '-' then do
      let (hour, cs) ← fixedDigits? 10 2 cs
      let (_, cs) ← marked? ':' 0 59 cs
      if 23 < hour then none else return cs
    else some (c :: cs)
  | [] => some []

/-- What is left behind a date. -/
def afterDay? (cs : List Char) : Option (List Char) := do
  let (year, cs) ← fixedDigits? 10 4 cs
  let (month, cs) ← marked? '-' 1 12 cs
  let (_, cs) ← marked? '-' 1 (daysIn year month) cs
  return cs

/-- What is left behind a date with a time, a date, or a time of day. A blank
behind a date need not lead to a time. -/
def afterDate? (cs : List Char) : Option (List Char) :=
  match afterDay? cs with
  | none => afterTime? cs
  | some (c :: rest) =>
    if c = 'T' ∨ c = 't' ∨ c = ' ' then
      match afterTime? rest with
      | some rest => afterZone? rest
      | none => some (c :: rest)
    else some (c :: rest)
  | some [] => some []

/-- A number or a date. -/
def numberOrDate? (cs : List Char) : Option (Toml × List Char) :=
  match afterDate? cs with
  | some rest => some (.date (cs.take (cs.length - rest.length)), rest)
  | none => number? cs

end PipeQuery.Toml
