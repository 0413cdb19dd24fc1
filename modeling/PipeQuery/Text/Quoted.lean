-- SUMMARY: Text in double quotes with escapes for quotes, backslashes and everything that would not show.
import PipeQuery.Text.DefaultIgnorable
import PipeQuery.Text.GraphemeExtend
import PipeQuery.Text.Unprintable

/-! # Quoted Text

The form in which messages show a text. Quotes, backslashes and the common
controls have short escapes, what has no form of its own is written as its code
point, and all else stands as it is. -/

namespace PipeQuery.Text

/-! ## Tables -/

/-- Whether a code point is inside a set given by its flips. -/
def insideFlips (flips : List Nat) (n : Nat) : Bool :=
  flips.foldl (fun inside flip => if flip ≤ n then !inside else inside) false

/-- The two sound marks of halfwidth Katakana. They join the character before them
and yet have a width of their own, so they are seen wherever they stand. -/
def isHalfwidthSoundMark (c : Char) : Bool :=
  c == '\uff9e' || c == '\uff9f'

/-- Whether a character joins the one before it and is not seen on its own. -/
def extendsGrapheme (c : Char) : Bool :=
  insideFlips graphemeExtendFlips c.toNat && !isHalfwidthSoundMark c

/-- Whether a character has no visible form. The plain space counts as visible. -/
def isUnprintable (c : Char) : Bool :=
  c != ' ' &&
    (insideFlips unprintableFlips c.toNat || insideFlips defaultIgnorableFlips c.toNat)

/-! ## Escapes -/

/-- The code point of a character in lower-case hexadecimal digits. -/
def hexDigits (c : Char) : List Char :=
  Nat.toDigits 16 c.toNat

/-- A character as it stands between the quotes. -/
def quotedChar (c : Char) : List Char :=
  if c = '"' then ['\\', '"']
  else if c = '\\' then ['\\', '\\']
  else if c = '\n' then ['\\', 'n']
  else if c = '\r' then ['\\', 'r']
  else if c = '\t' then ['\\', 't']
  else if c.toNat = 0 then ['\\', '0']
  else if ' ' ≤ c ∧ c ≤ '~' then [c]
  else if extendsGrapheme c || isUnprintable c then
    ['\\', 'u', '\x7b'] ++ hexDigits c ++ ['\x7d']
  else [c]

def quoted (s : String) : String :=
  String.ofList ('"' :: (s.toList.flatMap quotedChar ++ ['"']))

end PipeQuery.Text
