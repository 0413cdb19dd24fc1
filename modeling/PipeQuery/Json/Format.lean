-- SUMMARY: JSON as a format of records and as a format of values, with objects in the order of their names.
import PipeQuery.Format.Record
import PipeQuery.Format.Value
import PipeQuery.Json.Printer
import PipeQuery.Json.Reader
import PipeQuery.NameMap

/-! # JSON Formats

The formats that the program runs with. Writing never fails. -/

namespace PipeQuery.Json

/-! ## Records -/

/-- Records are objects whose members stand in the order of the fields, and choices are strings. -/
def recordFormat : RecordFormat where
  Error := Empty
  natural n := .ok (natural n).render
  text s := .ok (quoted s)
  choice name := .ok (quoted name)
  record members := .ok (objectText members)
  natural? most cs := do (← parse? cs.toList).naturalUpTo? most
  text? cs := do (← parse? cs.toList).text?
  choice? names cs := do
    let name ← (← parse? cs.toList).choice?
    if name ∈ names then some name else none
  fields? names cs := do
    let values ← (← parse? cs.toList).fields? names
    return values.map render

/-! ## Values -/

/-- The members of an object by their names. Names that are no texts are left out. -/
def named (members : List (Text × Json)) : NameMap Json :=
  members.filterMap fun m => m.1.map (·, m.2)

/-- An object whose members stand in the order of their names. -/
def sorted (members : List (String × Json)) : Json :=
  record (members.foldl (fun map m => NameMap.insert m.1 m.2 map) [])

def setMember (name : String) (value : Json) : Json → Json
  | .object members => record (NameMap.insert name value (named members))
  | other => other

/-- Objects have their members in the order of the names. -/
def valueFormat : ValueFormat where
  Value := Json
  Error := Empty
  text := text
  natural := natural
  flag := .bool
  object := sorted
  set object name value := setMember name value object
  print v := .ok v.render
  parse? cs := parse? cs.toList
  member? v name :=
    match v with
    | .object members => member? members name
    | _ => none
  text? := text?
  natural? := naturalUpTo? (UInt64.size - 1)

end PipeQuery.Json
