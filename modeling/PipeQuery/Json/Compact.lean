-- SUMMARY: The compact JSON text of strings and of objects.

/-! # Compact JSON

The compact form has no blanks. Quotes, backslashes and control characters of a
string are escaped and all other characters stand for themselves. -/

namespace PipeQuery.Json

/-- A digit of a hexadecimal number below 16. -/
def hexDigit (n : Nat) : Char :=
  (Nat.digitChar n)

/-- A character as it stands in a string. -/
def escape (c : Char) : List Char :=
  if c = '"' then ['\\', '"']
  else if c = '\\' then ['\\', '\\']
  else if c = '\n' then ['\\', 'n']
  else if c = '\r' then ['\\', 'r']
  else if c = '\t' then ['\\', 't']
  else if c.toNat = 8 then ['\\', 'b']
  else if c.toNat = 12 then ['\\', 'f']
  else if c.toNat < 32 then
    ['\\', 'u', '0', '0', hexDigit (c.toNat / 16), hexDigit (c.toNat % 16)]
  else [c]

/-- The characters that are escaped by a letter or by themselves. -/
def shortEscapes : List (Char × Char) :=
  [('"', '"'), ('\\', '\\'), ('\n', 'n'), ('\r', 'r'), ('\t', 't'), ('\x08', 'b'), ('\x0c', 'f')]

theorem escape_of_mem : ∀ m ∈ shortEscapes, escape m.1 = ['\\', m.2] := by
  decide

theorem escape_of_notMem {c : Char} (h : ∀ k, (c, k) ∉ shortEscapes) :
    escape c = if c.toNat < 32 then
      ['\\', 'u', '0', '0', hexDigit (c.toNat / 16), hexDigit (c.toNat % 16)] else [c] := by
  have hne : ∀ d k, (d, k) ∈ shortEscapes → c ≠ d := by
    rintro d k hmem rfl
    exact h k hmem
  have hnumber : ∀ n k, (Char.ofNat n, k) ∈ shortEscapes → c.toNat ≠ n := by
    rintro n k hmem rfl
    exact hne _ k hmem (Char.ofNat_toNat c).symm
  rw [escape, if_neg (hne '"' '"' (by decide)), if_neg (hne '\\' '\\' (by decide)),
    if_neg (hne '\n' 'n' (by decide)), if_neg (hne '\r' 'r' (by decide)),
    if_neg (hne '\t' 't' (by decide)), if_neg (hnumber 8 'b' (by decide)),
    if_neg (hnumber 12 'f' (by decide))]

/-- A character is escaped by another one or by its number, or stands for itself. -/
theorem escape_cases (c : Char) :
    (∃ k, (c, k) ∈ shortEscapes ∧ escape c = ['\\', k]) ∨
    (c.toNat < 32 ∧
      escape c = ['\\', 'u', '0', '0', hexDigit (c.toNat / 16), hexDigit (c.toNat % 16)]) ∨
    (c ≠ '"' ∧ c ≠ '\\' ∧ ¬c.toNat < 32 ∧ escape c = [c]) := by
  by_cases hshort : ∃ k, (c, k) ∈ shortEscapes
  · obtain ⟨k, hk⟩ := hshort
    exact .inl ⟨k, hk, escape_of_mem _ hk⟩
  · have hescape := escape_of_notMem (not_exists.1 hshort)
    by_cases hcontrol : c.toNat < 32
    · exact .inr (.inl ⟨hcontrol, hescape.trans (if_pos hcontrol)⟩)
    · refine .inr (.inr ⟨?_, ?_, hcontrol, hescape.trans (if_neg hcontrol)⟩)
      · rintro rfl
        exact hshort ⟨'"', by decide⟩
      · rintro rfl
        exact hshort ⟨'\\', by decide⟩

def quoted (s : String) : String :=
  String.ofList ('"' :: (s.toList.flatMap escape ++ ['"']))

/-- An object whose members have these names and these texts as values. -/
def objectText (members : List (String × String)) : String :=
  "\x7b" ++ ",".intercalate (members.map fun m => quoted m.1 ++ ":" ++ m.2) ++ "\x7d"

end PipeQuery.Json
