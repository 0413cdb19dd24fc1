-- SUMMARY: The bytes of a text read as characters: ASCII characters stay as they are, and every other one becomes bytes that no mark and no listed class contains.
import Mathlib.Data.List.Basic
import PipeQuery.Bytes.Basic

/-! # Encoded Texts

An ASCII character is its own byte. The bytes of any other character are all above ASCII, so that
one of them is never taken for a character of a pattern. -/

namespace PipeQuery

namespace Text

/-! ## Characters above ASCII -/

/-- Whether a character takes more than one byte, or a byte is part of such a character. -/
def Wide (c : Char) : Prop :=
  127 < c.toNat

instance (c : Char) : Decidable (Wide c) :=
  inferInstanceAs (Decidable (127 < c.toNat))

/-- Whether all characters of a text are ASCII. -/
def IsAscii (text : List Char) : Prop :=
  ∀ c ∈ text, ¬Wide c

-- There is another way to decide this, which goes through all characters there are.
instance (text : List Char) : Decidable (IsAscii text) :=
  List.decidableBAll (fun c => ¬Wide c) text

/-- Whether patterns in ASCII cannot tell two characters apart. -/
def Alike (b c : Char) : Prop :=
  b = c ∨ Wide b ∧ Wide c

theorem ne_of_wide {c k : Char} (h : Wide c) (hk : ¬Wide k) : c ≠ k :=
  fun heq => hk (heq ▸ h)

theorem Alike.eq_iff {b c k : Char} (h : Alike b c) (hk : ¬Wide k) : b = k ↔ c = k := by
  rcases h with rfl | ⟨hb, hc⟩
  · rfl
  · exact iff_of_false (ne_of_wide hb hk) (ne_of_wide hc hk)

theorem Alike.wide {b c : Char} (h : Alike b c) (hc : Wide c) : Wide b := by
  rcases h with rfl | ⟨hb, -⟩
  · exact hc
  · exact hb

/-- The bytes of a character. -/
def encoded (c : Char) : List Char :=
  (String.utf8EncodeChar c).map Char.ofUInt8

@[simp] theorem length_encoded (c : Char) : (encoded c).length = c.utf8Size := by
  rw [encoded, List.length_map, String.length_utf8EncodeChar]

theorem utf8Size_of_not_wide {c : Char} (h : ¬Wide c) : c.utf8Size = 1 := by
  rw [Char.utf8Size_eq_one_iff, UInt32.le_iff_toNat_le]
  exact Nat.le_of_not_lt h

theorem encoded_of_not_wide {c : Char} (h : ¬Wide c) : encoded c = [c] := by
  have hlt : c.val.toNat < 256 := Nat.lt_of_le_of_lt (Nat.le_of_not_lt h) (by decide)
  have hback : Char.ofUInt8 c.val.toUInt8 = c := by
    refine Char.ext (UInt32.toNat_inj.1 ?_)
    show c.val.toUInt8.toUInt32.toNat = c.val.toNat
    rw [UInt8.toNat_toUInt32, UInt32.toNat_toUInt8, Nat.mod_eq_of_lt hlt]
  rw [encoded, String.utf8EncodeChar_eq_singleton (utf8Size_of_not_wide h), List.map_singleton,
    hback]

theorem wide_ofUInt8 {n : Nat} (hlow : 127 < n) (hhigh : n < 256) :
    Wide (Char.ofUInt8 (UInt8.ofNat n)) := by
  show 127 < (UInt8.ofNat n).toUInt32.toNat
  rw [UInt8.toNat_toUInt32, UInt8.toNat_ofNat', Nat.mod_eq_of_lt (by omega)]
  exact hlow

theorem wide_of_mem_encoded {c b : Char} (h : Wide c) (hb : b ∈ encoded c) : Wide b := by
  obtain ⟨x, hx, rfl⟩ := List.mem_map.1 hb
  have hnot : ¬c.val.toNat ≤ 127 := Nat.not_le.2 h
  -- Whatever the number of bytes, each is a remainder with a high mark added to it.
  have hbyte : ∃ n, x = UInt8.ofNat n ∧ 127 < n ∧ n < 256 := by
    simp only [String.utf8EncodeChar, hnot, if_false] at hx
    split at hx
    case isTrue =>
      simp only [List.mem_cons, List.not_mem_nil, or_false] at hx
      rcases hx with rfl | rfl <;> exact ⟨_, rfl, by omega, by omega⟩
    case isFalse =>
      split at hx
      case isTrue =>
        simp only [List.mem_cons, List.not_mem_nil, or_false] at hx
        rcases hx with rfl | rfl | rfl <;> exact ⟨_, rfl, by omega, by omega⟩
      case isFalse =>
        simp only [List.mem_cons, List.not_mem_nil, or_false] at hx
        rcases hx with rfl | rfl | rfl | rfl <;> exact ⟨_, rfl, by omega, by omega⟩
  obtain ⟨n, rfl, hlow, hhigh⟩ := hbyte
  exact wide_ofUInt8 hlow hhigh

/-- Patterns in ASCII cannot tell a byte from the character that it is part of. -/
theorem alike_of_mem_encoded {b c : Char} (hb : b ∈ encoded c) : Alike b c := by
  by_cases h : Wide c
  · exact .inr ⟨wide_of_mem_encoded h hb, h⟩
  · rw [encoded_of_not_wide h, List.mem_singleton] at hb
    exact .inl hb

/-! ## Texts -/

/-- The bytes of a text, as a scanner looks at them. -/
def spread (cs : List Char) : List Char :=
  cs.flatMap encoded

@[simp] theorem chars_bytes (cs : List Char) : (bytes cs).chars = spread cs := by
  rw [Bytes.chars, bytes, List.toList_toArray, List.map_flatMap]
  rfl

theorem spread_cons (c : Char) (cs : List Char) : spread (c :: cs) = encoded c ++ spread cs := rfl

theorem spread_append (cs ds : List Char) : spread (cs ++ ds) = spread cs ++ spread ds :=
  List.flatMap_append

theorem spread_cons_of_not_wide {c : Char} (h : ¬Wide c) (cs : List Char) :
    spread (c :: cs) = c :: spread cs := by
  rw [spread_cons, encoded_of_not_wide h, List.singleton_append]

theorem spread_of_ascii {text : List Char} (h : IsAscii text) : spread text = text := by
  induction text with
  | nil => rfl
  | cons c text ih =>
    obtain ⟨hc, htext⟩ := List.forall_mem_cons.1 h
    rw [spread_cons_of_not_wide hc, ih htext]

@[simp] theorem length_spread (cs : List Char) : (spread cs).length = size cs := by
  induction cs with
  | nil => rfl
  | cons c cs ih => rw [spread_cons, List.length_append, length_encoded, ih, size_cons]

theorem spread_eq_nil_iff {cs : List Char} : spread cs = [] ↔ cs = [] := by
  rw [← List.length_eq_zero_iff, length_spread, size_eq_zero_iff]

@[simp] theorem size_bytes (cs : List Char) : (bytes cs).size = size cs := by
  rw [← length_spread, ← chars_bytes, Bytes.chars, List.length_map, Array.length_toList]

/-- The bytes of a beginning, and behind them those of the rest. -/
theorem spread_take_append_drop (cs : List Char) (n : Nat) :
    spread (cs.take n) ++ spread (cs.drop n) = spread cs := by
  rw [← spread_append, List.take_append_drop]

theorem take_spread (cs : List Char) (n : Nat) :
    (spread cs).take (size (cs.take n)) = spread (cs.take n) := by
  rw [← spread_take_append_drop cs n, ← length_spread, List.take_left]

theorem drop_spread (cs : List Char) (n : Nat) :
    (spread cs).drop (size (cs.take n)) = spread (cs.drop n) := by
  rw [← spread_take_append_drop cs n, ← length_spread, List.drop_left]

/-- The bytes of a text begin with one that is like its first character; more bytes of that
character are all above ASCII. -/
theorem exists_spread_cons (c : Char) (cs : List Char) :
    ∃ b ws, spread (c :: cs) = b :: (ws ++ spread cs) ∧ Alike b c ∧ (∀ w ∈ ws, Wide w) ∧
      ws.length + 1 = c.utf8Size := by
  by_cases h : Wide c
  · obtain ⟨b, ws, hws⟩ : ∃ b ws, encoded c = b :: ws := by
      refine List.exists_cons_of_length_pos ?_
      rw [length_encoded]
      exact c.utf8Size_pos
    have hall : ∀ w ∈ b :: ws, Wide w := fun w hw => wide_of_mem_encoded h (hws ▸ hw)
    rw [List.forall_mem_cons] at hall
    refine ⟨b, ws, ?_, .inr ⟨hall.1, h⟩, hall.2, ?_⟩
    · rw [spread_cons, hws, List.cons_append]
    · rw [← length_encoded, hws, List.length_cons]
  · exact ⟨c, [], spread_cons_of_not_wide h cs, .inl rfl, nofun, (utf8Size_of_not_wide h).symm⟩

theorem exists_spread_cons_of_ne {c k : Char} (hk : ¬Wide k) (hc : c ≠ k) (cs : List Char) :
    ∃ b bs, spread (c :: cs) = b :: bs ∧ b ≠ k := by
  obtain ⟨b, ws, hspread, hb, -⟩ := exists_spread_cons c cs
  exact ⟨b, _, hspread, mt (hb.eq_iff hk).1 hc⟩

end Text

/-! ## Recognizers -/

namespace Recognizer

/-- The fixed text of a recognizer, if it has one. -/
def text? : Recognizer → Option (List Char)
  | .literal text | .keyword text => some text
  | _ => none

/-- Whether the fixed text of a recognizer is ASCII. -/
def IsAscii (r : Recognizer) : Prop :=
  ∀ text ∈ r.text?, Text.IsAscii text

instance (r : Recognizer) : Decidable r.IsAscii :=
  inferInstanceAs (Decidable (∀ text ∈ r.text?, Text.IsAscii text))

end Recognizer

end PipeQuery
