-- SUMMARY: The characters with the Unicode property Default_Ignorable_Code_Point, as a table of flips.

/-! # Default Ignorable Characters

Characters that take no room when a font does not know them: joiners, variation
selectors and tags, and letters that only fill an empty place in a syllable. -/

namespace PipeQuery.Text

/-- The code points at which membership in Default_Ignorable_Code_Point flips,
starting outside. -/
def defaultIgnorableFlips : List Nat :=
  [173, 174, 847, 848, 1564, 1565, 4447, 4449, 6068, 6070, 6155, 6160, 8203, 8208, 8234, 8239,
    8288, 8304, 12644, 12645, 65024, 65040, 65279, 65280, 65440, 65441, 65520, 65529, 113824,
    113828, 119155, 119163, 917504, 921600]

end PipeQuery.Text
