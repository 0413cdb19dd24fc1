-- SUMMARY: What lies ahead of an index, and what reads and loops find there.
import PipeQuery.Bytes.Basic
import PipeQuery.Proofs.Recognizer.Scan

/-! # Reading Ahead

Bytes behind an index are read as a list. A read that has to be in range finds the first item of
the list, if there is one, and a loop over indices that passes one piece in each turn passes all
pieces of the list. -/

namespace PipeQuery

/-! ## Checked Results -/

namespace Checked

@[simp] theorem ok_bind {α β : Type} (a : α) (f : α → Checked β) :
    ((.ok a : Checked α) >>= f) = f a := rfl

@[simp] theorem pure_eq {α : Type} (a : α) : (pure a : Checked α) = .ok a := rfl

theorem entry_of_getElem? {α : Type} {table : Array α} {i : Nat} {a : α}
    (h : table[i]? = some a) : entry table i = .ok a := by
  obtain ⟨hlt, hget⟩ := Array.getElem?_eq_some_iff.1 h
  rw [entry, dif_pos hlt, hget]

theorem replace_of_lt {α : Type} {table : Array α} {i : Nat} (h : i < table.size) (a : α) :
    replace table i a = .ok (table.setIfInBounds i a) := by
  rw [replace, dif_pos h, Array.setIfInBounds, dif_pos h]

end Checked

namespace Bytes

@[simp] theorem length_chars (bs : Bytes) : bs.chars.length = bs.size := by
  simp [chars]

theorem get?_eq (bs : Bytes) (i : Nat) : bs.get? i = (bs.chars.drop i).head? := by
  rw [List.head?_drop, get?, chars, List.getElem?_map, Array.getElem?_toList]

theorem run_eq (bs : Bytes) (i : Nat) (p : Char → Bool) :
    bs.run i p = Scan.leading p (bs.chars.drop i) := rfl

theorem beginsWith_iff {bs : Bytes} {text : List Char} :
    bs.beginsWith text = true ↔ text <+: bs.chars :=
  List.isPrefixOf_iff_prefix

/-! ## Places -/

/-- An index in range, and the bytes from there on. -/
structure Ahead (bs : Bytes) (i : Nat) (cs : List Char) : Prop where
  inRange : i ≤ bs.size
  rest : bs.chars.drop i = cs

namespace Ahead

variable {bs : Bytes} {i : Nat} {c : Char} {cs : List Char}

theorem start (bs : Bytes) : bs.Ahead 0 bs.chars :=
  ⟨Nat.zero_le _, rfl⟩

theorem length_eq (h : bs.Ahead i cs) : i + cs.length = bs.size := by
  have hle := h.inRange
  rw [← h.rest, List.length_drop, length_chars]
  omega

/-- Where nothing lies ahead, the bytes are at their end. -/
theorem eq_size (h : bs.Ahead i []) : i = bs.size :=
  h.length_eq

theorem lt_size (h : bs.Ahead i (c :: cs)) : i < bs.size := by
  have := h.length_eq
  rw [List.length_cons] at this
  omega

theorem drop (h : bs.Ahead i cs) {n : Nat} (hn : n ≤ cs.length) :
    bs.Ahead (i + n) (cs.drop n) := by
  have hlen := h.length_eq
  refine ⟨by omega, ?_⟩
  rw [← List.drop_drop, h.rest]

theorem tail (h : bs.Ahead i (c :: cs)) : bs.Ahead (i + 1) cs :=
  h.drop (Nat.succ_pos _)

theorem get? (h : bs.Ahead i cs) : bs.get? i = cs.head? := by
  rw [get?_eq, h.rest]

theorem get?_succ (h : bs.Ahead i (c :: cs)) : bs.get? (i + 1) = cs.head? :=
  h.tail.get?

theorem run (h : bs.Ahead i cs) (p : Char → Bool) : bs.run i p = Scan.leading p cs := by
  rw [run_eq, h.rest]

/-- In front of some byte, a read is in range. -/
theorem read (h : bs.Ahead i (c :: cs)) : bs.read i = .ok c := by
  obtain ⟨b, hb, rfl⟩ := Option.map_eq_some_iff.1 h.get?
  rw [Bytes.read, Checked.entry_of_getElem? hb]
  rfl

/-- A slice from an index in range holds what lies ahead of it. -/
theorem suffix (h : bs.Ahead i cs) :
    ∃ rest : Bytes, bs.suffix i = .ok rest ∧ rest.chars = cs := by
  refine ⟨bs.extract i, if_pos h.inRange, ?_⟩
  rw [← h.rest, chars, chars, Array.toList_extract, List.extract_eq_take_drop, ← List.map_drop,
    ← Array.length_toList, ← List.length_drop, List.take_length]

/-! ## Loops -/

/-- A loop that passes one piece in each turn takes its last turn behind all pieces. -/
theorem loop {α : Type} {turn : Nat → α} {last : Nat → List Char → α}
    {piece : List Char → Nat} (hpiece : ∀ cs, piece cs ≤ cs.length)
    (step : ∀ {i cs}, bs.Ahead i cs →
      turn i = if piece cs = 0 then last i cs else turn (i + piece cs))
    (h : bs.Ahead i cs) :
    turn i = last (i + Scan.pieces piece cs) (cs.drop (Scan.pieces piece cs)) := by
  induction cs using Scan.pieces_induction piece generalizing i with
  | stop cs hstop =>
    have hzero : piece cs = 0 := by
      rcases hstop with rfl | hzero
      · exact Nat.le_zero.1 (hpiece [])
      · exact hzero
    rw [step h, if_pos hzero, Scan.pieces_of_stop hstop, Nat.add_zero, List.drop_zero]
  | step cs hne hpos ih =>
    rw [step h, if_neg hpos.ne', ih (h.drop (hpiece cs)), Scan.pieces_of_pos hne hpos,
      ← Nat.add_assoc, List.drop_drop]

end Ahead

/-- Bytes begin with a character or not, and a scanner that asks for it learns which. -/
theorem first_cases (bs : Bytes) (k : Char) :
    (∃ cs, bs.chars = k :: cs ∧ bs.get? 0 = some k ∧ bs.Ahead 1 cs) ∨
      (∀ cs, bs.chars ≠ k :: cs) ∧ bs.get? 0 ≠ some k := by
  have hfirst := (Ahead.start bs).get?
  by_cases h : ∃ cs, bs.chars = k :: cs
  · obtain ⟨cs, hcs⟩ := h
    refine .inl ⟨cs, hcs, ?_, (hcs ▸ Ahead.start bs).tail⟩
    rw [hfirst, hcs, List.head?_cons]
  · refine .inr ⟨not_exists.1 h, fun hget => h ?_⟩
    rw [hfirst] at hget
    exact List.head?_eq_some_iff.1 hget

end Bytes

end PipeQuery
