-- SUMMARY: Libraries that write and read records, and the laws that they are relied on for.

/-! # Record Formats

Records are written and read by a library, part by part: a record is written from the texts of
its fields, and read into them. -/

namespace PipeQuery

/-- How a library writes records and reads them. It holds data only. `RecordFormat.Lawful` has
the laws that are relied on. -/
structure RecordFormat where
  /-- Why a value cannot be written. -/
  Error : Type
  natural : Nat → Except Error String
  text : String → Except Error String
  /-- One of several names. -/
  choice : String → Except Error String
  /-- Named fields in this order, each with the text of its value. -/
  record : List (String × String) → Except Error String
  /-- Reads a number that is not above a limit. -/
  natural? (most : Nat) : String → Option Nat
  text? : String → Option String
  /-- Reads one of the given names. -/
  choice? (names : List String) : String → Option String
  /-- Reads a record with the given fields: the texts of their values, in the order of the
  names. -/
  fields? (names : List String) : String → Option (List String)

namespace RecordFormat

/-- The texts that a format writes. -/
inductive Writes (F : RecordFormat) : String → Prop where
  | natural {n : Nat} {cs : String} : F.natural n = .ok cs → Writes F cs
  | text {s cs : String} : F.text s = .ok cs → Writes F cs
  | choice {name cs : String} : F.choice name = .ok cs → Writes F cs
  | record {members : List (String × String)} {cs : String} :
    (∀ m ∈ members, Writes F m.2) → F.record members = .ok cs → Writes F cs

/-- What is relied on: every part of a record is written, and read back as it was. -/
structure Lawful (F : RecordFormat) : Prop where
  /-- Numbers of 64 bits are exact. -/
  natural : ∀ n < UInt64.size, ∃ cs, F.natural n = .ok cs ∧
    ∀ most, n ≤ most → F.natural? most cs = some n
  /-- Texts keep all their characters. -/
  text : ∀ s, ∃ cs, F.text s = .ok cs ∧ F.text? cs = some s
  /-- A name is found among different ones. -/
  choice : ∀ names name, names.Nodup → name ∈ names →
    ∃ cs, F.choice name = .ok cs ∧ F.choice? names cs = some name
  /-- Fields are found under their names, and with the texts they were given. -/
  record : ∀ members : List (String × String), (members.map (·.1)).Nodup →
    (∀ m ∈ members, F.Writes m.2) →
    ∃ cs, F.record members = .ok cs ∧ F.fields? (members.map (·.1)) cs = some (members.map (·.2))

end RecordFormat

end PipeQuery
