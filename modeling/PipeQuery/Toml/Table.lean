-- SUMMARY: How TOML tables grow: by keys, by headers, and by headers of arrays, each only where it may.
import PipeQuery.Toml.Basic

/-! # TOML Tables

No key is given twice and no table is defined twice. A table that only the
header of another called for may still get its own header; one that dotted keys
called for may get more dotted keys; one that is written as a value is closed. -/

namespace PipeQuery.Toml

def insert (key : String) (value : Toml) : List (String × Toml) → List (String × Toml)
  | [] => [(key, value)]
  | (k, v) :: members =>
    if k = key then (key, value) :: members else (k, v) :: insert key value members

/-- Whether a table may be entered on the way to one that headers, or dotted keys,
lead to. -/
def Origin.isOpenTo (way : Origin) : Origin → Bool
  | .inline => false
  | .header => way != .dotted
  | .implied | .dotted => true

/-- Changes the last item of a list. -/
def changeLast? (change : Toml → Option Toml) : List Toml → Option (List Toml)
  | [] => none
  | [t] => (change t).map ([·])
  | t :: u :: ts => (changeLast? change (u :: ts)).map (t :: ·)

/-- Changes a member on the way to a table. One that does not exist is created. -/
def enter? (way : Origin) (change : Toml → Option Toml) : Option Toml → Option Toml
  | none => change (.table way [])
  | some (.table origin members) =>
    if way.isOpenTo origin then change (.table origin members) else none
  | some (.tables items) => (changeLast? change items).map .tables
  | some _ => none

/-- Changes the table that keys lead to. -/
def within? (way : Origin) (change : Toml → Option Toml) : List String → Toml → Option Toml
  | [], t => change t
  | key :: keys, .table origin members => do
    let child ← enter? way (within? way change keys) (members.lookup key)
    return .table origin (insert key child members)
  | _ :: _, _ => none

/-- Adds a member to a table: one with dotted keys in front only to a table that
dotted keys called for. -/
def define? (dotted : Bool) (key : String) (value : Toml) : Toml → Option Toml
  | .table origin members =>
    if dotted && origin != .dotted then none
    else if (members.lookup key).isSome then none
    else some (.table origin (insert key value members))
  | _ => none

/-- Adds a member under dotted keys. -/
def assign? (keys : List String) (key : String) (value : Toml) (t : Toml) : Option Toml :=
  within? .dotted (define? (!keys.isEmpty) key value) keys t

/-- Opens a member for a header. -/
def openTable? (key : String) : Toml → Option Toml
  | .table origin members =>
    match members.lookup key with
    | none => some (.table origin (insert key (.table .header []) members))
    | some (.table .implied inner) =>
      some (.table origin (insert key (.table .header inner) members))
    | some _ => none
  | _ => none

/-- Adds a table to a member for a header of an array. -/
def openItem? (key : String) : Toml → Option Toml
  | .table origin members =>
    match members.lookup key with
    | none => some (.table origin (insert key (.tables [.table .header []]) members))
    | some (.tables items) =>
      some (.table origin (insert key (.tables (items ++ [.table .header []])) members))
    | some _ => none
  | _ => none

end PipeQuery.Toml
