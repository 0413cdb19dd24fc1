-- SUMMARY: TOML values, how tables came to be, and the look-up of fields.

/-! # TOML Values -/

namespace PipeQuery

/-- How a table came to be, which decides what may still be added to it. -/
inductive Toml.Origin where
  /-- It is the document, or has a header of its own. -/
  | header
  /-- The header of a table inside it called for it. -/
  | implied
  /-- Dotted keys called for it. -/
  | dotted
  /-- It is written as a value, so nothing can be added. -/
  | inline
  deriving DecidableEq, Repr

/-- A TOML value. Numbers with a fraction and dates are kept as they are written. -/
inductive Toml where
  | bool (value : Bool)
  | integer (value : Int)
  | float (written : List Char)
  | date (written : List Char)
  | string (text : String)
  | array (items : List Toml)
  /-- An array that headers add tables to. -/
  | tables (items : List Toml)
  | table (origin : Toml.Origin) (members : List (String × Toml))
  deriving Repr

namespace Toml

/-! ## Inspecting -/

def bool? : Toml → Option Bool
  | .bool b => some b
  | _ => none

/-- A natural number that does not exceed `most`. -/
def naturalUpTo? (most : Nat) : Toml → Option Nat
  | .integer (.ofNat n) => if n ≤ most then some n else none
  | _ => none

/-- Whether a value is a table or an array with nothing in it. -/
def isHollow : Toml → Bool
  | .table _ [] | .array [] | .tables [] => true
  | _ => false

/-- The name of a choice without content: the name alone, or a table that has it
as its one key, with nothing in it. -/
def choice? : Toml → Option String
  | .string s => some s
  | .table _ [(name, content)] => if content.isHollow then some name else none
  | _ => none

/-- The named fields of a record, each if it is there. A table may have other keys
besides; an array lists the fields in order; a date has parts of its own, but none
of the fields. -/
def fields? (names : List String) : Toml → Option (List (Option Toml))
  | .table _ members => some (names.map fun name => members.lookup name)
  | .array items | .tables items => some ((List.range names.length).map fun i => items[i]?)
  | .date _ => some (names.map fun _ => none)
  | _ => none

end Toml

end PipeQuery
