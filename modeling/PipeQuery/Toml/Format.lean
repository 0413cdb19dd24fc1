-- SUMMARY: TOML as a format of settings.
import PipeQuery.Format.Settings
import PipeQuery.Toml.Reader

/-! # TOML Settings -/

namespace PipeQuery.Toml

/-- The format that the program runs with. -/
def settingsFormat : SettingsFormat where
  Value := Toml
  parse? text := parse? text.toList
  fields? := fields?
  flag? := bool?
  natural? := naturalUpTo?
  choice? := choice?

end PipeQuery.Toml
