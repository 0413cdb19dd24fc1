-- SUMMARY: Digits in bases up to 16, and the numbers that they stand for.

/-! # Digits -/

namespace PipeQuery.Text

/-- The value of a digit, in either case. -/
def digitValue (c : Char) : Nat :=
  if c.isDigit then c.toNat - '0'.toNat else c.toLower.toNat - 'a'.toNat + 10

/-- Whether a character is a digit in a base. -/
def isDigitIn (base : Nat) (c : Char) : Bool :=
  (c.isDigit || c.isAlpha) && digitValue c < base

/-- The number that digits stand for in a base. -/
def digitsValue (base : Nat) (ds : List Char) : Nat :=
  ds.foldl (fun n d => n * base + digitValue d) 0

/-- The number that exactly `width` digits at the beginning of a text stand for, and
the rest of the text. -/
def fixedDigits? (base width : Nat) (cs : List Char) : Option (Nat × List Char) :=
  let ds := cs.take width
  if ds.length = width && ds.all (isDigitIn base) then some (digitsValue base ds, cs.drop width)
  else none

end PipeQuery.Text
