-- SUMMARY: Libraries that write and read values of any shape as JSON, and the laws that they are relied on for.
import PipeQuery.Json.Compact

/-! # Value Formats

Log lines are values that a library keeps, member by member, and writes in the end. In what
order it keeps the members of an object is its own affair. -/

namespace PipeQuery

/-- How a library keeps values, writes them as JSON and reads them. It holds data only.
`ValueFormat.Lawful` has the laws that are relied on. -/
structure ValueFormat where
  Value : Type
  /-- Why a value cannot be written. -/
  Error : Type
  text : String → Value
  natural : Nat → Value
  flag : Bool → Value
  object : List (String × Value) → Value
  /-- Sets a member of an object. -/
  set (object : Value) (name : String) (value : Value) : Value
  print : Value → Except Error String
  parse? : String → Option Value
  member? (object : Value) (name : String) : Option Value
  text? : Value → Option String
  natural? : Value → Option Nat

namespace ValueFormat

/-- Values of texts, numbers of 64 bits, flags, and objects whose names are all different. -/
inductive Plain (F : ValueFormat) : F.Value → Prop where
  | text (s : String) : Plain F (F.text s)
  | natural {n : Nat} : n < UInt64.size → Plain F (F.natural n)
  | flag (b : Bool) : Plain F (F.flag b)
  | object {members : List (String × F.Value)} : (members.map (·.1)).Nodup →
    (∀ m ∈ members, Plain F m.2) → Plain F (F.object members)

/-- What is relied on: objects are maps, values are written as compact JSON, and plain ones are
read back. -/
structure Lawful (F : ValueFormat) : Prop where
  text?_text : ∀ s, F.text? (F.text s) = some s
  natural?_natural : ∀ n < UInt64.size, F.natural? (F.natural n) = some n
  member?_object : ∀ members : List (String × F.Value), (members.map (·.1)).Nodup →
    ∀ name, F.member? (F.object members) name = members.lookup name
  /-- A new name is one more member. -/
  set_object : ∀ (members : List (String × F.Value)) (name : String) (value : F.Value),
    name ∉ members.map (·.1) →
    F.set (F.object members) name value = F.object (members ++ [(name, value)])
  print_text : ∀ s, F.print (F.text s) = .ok (Json.quoted s)
  print_natural : ∀ n < UInt64.size, F.print (F.natural n) = .ok (toString n)
  print_flag : ∀ b, F.print (F.flag b) = .ok (toString b)
  /-- Members are written in some order, each with its own text. -/
  print_object : ∀ (members : List (String × F.Value)) (texts : F.Value → String),
    (members.map (·.1)).Nodup → (∀ m ∈ members, F.print m.2 = .ok (texts m.2)) →
    ∃ order : List (String × F.Value), order.Perm members ∧
      F.print (F.object members) =
        .ok (Json.objectText (order.map fun m => (m.1, texts m.2)))
  parse?_print : ∀ v, F.Plain v → ∀ cs, F.print v = .ok cs → F.parse? cs = some v

end ValueFormat

end PipeQuery
