-- SUMMARY: The bytes of a text, with indexed reads, slices and table entries that fail out of range.
import PipeQuery.Recognizer.Scan
import PipeQuery.Text.Size

/-! # Bytes

Scanners go over the bytes of a text and not over its characters. The marks they look for and the
classes they skip are ASCII, so each byte is looked at as the character with its code. An index
that is read without a test before it has to be in range; where it is not, the scan has failed. -/

namespace PipeQuery

abbrev Bytes := Array UInt8

/-- The bytes of the UTF-8 encoding. -/
def Text.bytes (cs : List Char) : Bytes :=
  (cs.flatMap String.utf8EncodeChar).toArray

/-! ## Checked Reads -/

/-- An index that was used behind the end. -/
structure OutOfRange where
  index : Nat
  size : Nat
  deriving DecidableEq, Repr

/-- A result, if no index was out of range. -/
abbrev Checked (α : Type) := Except OutOfRange α

namespace Checked

def entry {α : Type} (table : Array α) (i : Nat) : Checked α :=
  if h : i < table.size then .ok table[i] else .error ⟨i, table.size⟩

/-- A table with another entry at an index. -/
def replace {α : Type} (table : Array α) (i : Nat) (value : α) : Checked (Array α) :=
  if h : i < table.size then .ok (table.set i value) else .error ⟨i, table.size⟩

end Checked

namespace Bytes

/-- The bytes, each as the character with its code. -/
def chars (bs : Bytes) : List Char :=
  bs.toList.map Char.ofUInt8

def get? (bs : Bytes) (i : Nat) : Option Char :=
  bs[i]?.map Char.ofUInt8

/-- The byte at an index that has to be in range. -/
def read (bs : Bytes) (i : Nat) : Checked Char :=
  return Char.ofUInt8 (← Checked.entry bs i)

/-- The bytes from an index on that has to be in range. -/
def suffix (bs : Bytes) (start : Nat) : Checked Bytes :=
  if start ≤ bs.size then .ok (bs.extract start) else .error ⟨start, bs.size⟩

/-- Whether the bytes begin with an ASCII text. -/
def beginsWith (bs : Bytes) (text : List Char) : Bool :=
  text.isPrefixOf bs.chars

/-- How many bytes from an index on belong to a class, none behind the end. -/
def run (bs : Bytes) (start : Nat) (p : Char → Bool) : Nat :=
  Scan.leading p (bs.chars.drop start)

end Bytes

end PipeQuery
