-- SUMMARY: Libraries that read settings files.

/-! # Settings Formats -/

namespace PipeQuery

/-- How a library reads a settings file and looks into it. -/
structure SettingsFormat where
  Value : Type
  parse? : String → Option Value
  /-- The named fields of a record, each if it is there. -/
  fields? (names : List String) : Value → Option (List (Option Value))
  flag? : Value → Option Bool
  /-- A number that is not above a limit. -/
  natural? (most : Nat) : Value → Option Nat
  /-- The name of a choice. -/
  choice? : Value → Option String

end PipeQuery
