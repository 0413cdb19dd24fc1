-- SUMMARY: JSON values, their texts and numbers, and ways to build and inspect them.

/-! # JSON Values

Members of an object keep the order in which they are written, repeated names
included. Numbers keep how they are written, so that nothing is lost between
reading and writing. -/

namespace PipeQuery

/-- The text of a JSON string. None if one of its escapes stands for half a
character, for such a string is well-formed and yet no text. -/
abbrev Json.Text := Option String

/-- A JSON number as it is written. -/
structure Json.Number where
  negative : Bool
  whole : Nat
  /-- The fraction and the exponent, empty for a whole number. -/
  tail : List Char
  deriving DecidableEq, Repr

/-- A JSON value. -/
inductive Json where
  | null
  | bool (value : Bool)
  | number (value : Json.Number)
  | string (text : Json.Text)
  | array (items : List Json)
  | object (members : List (Json.Text × Json))
  deriving Repr

namespace Json

/-! ## Building -/

def text (s : String) : Json := .string (some s)

def natural (n : Nat) : Json := .number { negative := false, whole := n, tail := [] }

/-- An object from names and values. -/
def record (members : List (String × Json)) : Json :=
  .object (members.map fun m => (some m.1, m.2))

/-! ## Inspecting -/

def text? : Json → Option String
  | .string t => t
  | _ => none

/-- A number that is written with digits alone and does not exceed `most`. -/
def naturalUpTo? (most : Nat) : Json → Option Nat
  | .number ⟨false, n, []⟩ => if n ≤ most then some n else none
  | _ => none

/-- The one value that carries a name among the members of an object. -/
def member? (members : List (Text × Json)) (name : String) : Option Json :=
  match members.filter (·.1 == some name) with
  | [(_, value)] => some value
  | _ => none

/-- The values of the named fields of a record, in the order of the names. An
object must have each name once and may have others besides; an array must
list the values and nothing else. -/
def fields? (names : List String) : Json → Option (List Json)
  | .object members =>
    if members.all (·.1.isSome) then names.mapM (member? members) else none
  | .array items => if items.length = names.length then some items else none
  | _ => none

/-- The name of a choice without content: the name alone, or an object whose one
member has it and is null. -/
def choice? : Json → Option String
  | .string t => t
  | .object [(name, .null)] => name
  | _ => none

end Json

end PipeQuery
