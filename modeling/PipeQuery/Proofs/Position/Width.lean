-- SUMMARY: Counting lines and columns in 32 bits overflows exactly on texts with too many lines or a line that is too long.
import Mathlib.Data.List.Basic
import PipeQuery.Position

/-! # Lines and Columns of 32 Bits

Positions count without bound. A program counts in 32 bits and stops where that overflows. It
gets the same positions as long as lines are short enough and few enough. -/

namespace PipeQuery

/-! ## Counting -/

/-- One more in 32 bits, refused where it overflows. -/
def succ32? (n : Nat) : Option Nat :=
  if n + 1 < UInt32.size then some (n + 1) else none

theorem succ32?_eq_some_iff {n m : Nat} : succ32? n = some m ↔ n + 1 = m ∧ m < UInt32.size := by
  rw [succ32?]
  split <;> simp <;> omega

namespace Position

/-- The place after one more character, whose line and column have 32 bits. -/
def advance32? (p : Position) (c : Char) : Option Position :=
  if c = '\n' then (succ32? p.line).map fun line => ⟨p.offset + 1, line, 1⟩
  else (succ32? p.column).map fun column => ⟨p.offset + c.utf8Size, p.line, column⟩

/-- The place after a whole text, unless a line or a column overflows on the way. -/
def advanceOver32? (p : Position) (cs : List Char) : Option Position :=
  cs.foldlM advance32? p

/-- Whether line and column have 32 bits. -/
structure Narrow (p : Position) : Prop where
  line : p.line < UInt32.size
  column : p.column < UInt32.size

theorem narrow_start : start.Narrow := ⟨by decide, by decide⟩

theorem advance_of_advance32? {p q : Position} {c : Char} (h : p.advance32? c = some q) :
    p.advance c = q ∧ (p.Narrow → q.Narrow) := by
  rw [advance32?] at h
  rw [advance]
  split at h
  case isTrue hc =>
    have hone : 1 < UInt32.size := by decide
    obtain ⟨line, hline, rfl⟩ := Option.map_eq_some_iff.1 h
    obtain ⟨rfl, hlt⟩ := succ32?_eq_some_iff.1 hline
    exact ⟨if_pos hc, fun _ => ⟨hlt, hone⟩⟩
  case isFalse hc =>
    obtain ⟨column, hcolumn, rfl⟩ := Option.map_eq_some_iff.1 h
    obtain ⟨rfl, hlt⟩ := succ32?_eq_some_iff.1 hcolumn
    exact ⟨if_neg hc, fun hp => ⟨hp.line, hlt⟩⟩

theorem advance32?_of_narrow {p : Position} {c : Char} (h : (p.advance c).Narrow) :
    p.advance32? c = some (p.advance c) := by
  rw [advance] at h ⊢
  rw [advance32?]
  split at h
  case isTrue hc => rw [if_pos hc, if_pos hc, succ32?_eq_some_iff.2 ⟨rfl, h.line⟩, Option.map_some]
  case isFalse hc =>
    rw [if_neg hc, if_neg hc, succ32?_eq_some_iff.2 ⟨rfl, h.column⟩, Option.map_some]

theorem advanceOver32?_append (p : Position) (cs ds : List Char) :
    p.advanceOver32? (cs ++ ds) = (p.advanceOver32? cs).bind (·.advanceOver32? ds) :=
  List.foldlM_append

theorem advanceOver32?_cons (p : Position) (c : Char) (cs : List Char) :
    p.advanceOver32? (c :: cs) = (p.advance32? c).bind (·.advanceOver32? cs) :=
  List.foldlM_cons

/-- Where nothing overflows, 32 bits are as good as any. -/
theorem advanceOver_of_advanceOver32? {p q : Position} {cs : List Char}
    (h : p.advanceOver32? cs = some q) : p.advanceOver cs = q := by
  induction cs generalizing p with
  | nil => exact Option.some.inj h
  | cons c cs ih =>
    rw [advanceOver32?_cons] at h
    obtain ⟨r, hr, hq⟩ := Option.bind_eq_some_iff.1 h
    rw [advanceOver_cons, (advance_of_advance32? hr).1]
    exact ih hq

/-- Counting over a text overflows nowhere exactly if it leads to no wider place. -/
theorem advanceOver32?_eq_some_iff {p q : Position} {cs : List Char} (hp : p.Narrow) :
    p.advanceOver32? cs = some q ↔
      p.advanceOver cs = q ∧ ∀ ds, ds <+: cs → (p.advanceOver ds).Narrow := by
  induction cs generalizing p with
  | nil =>
    have hnil : ∀ ds : List Char, ds <+: [] → (p.advanceOver ds).Narrow := by
      intro ds hds
      rw [List.prefix_nil.1 hds]
      exact hp
    rw [advanceOver32?, List.foldlM_nil, advanceOver_nil]
    exact ⟨fun h => ⟨Option.some.inj h, hnil⟩, fun h => congrArg some h.1⟩
  | cons c cs ih =>
    rw [advanceOver32?_cons, Option.bind_eq_some_iff, advanceOver_cons]
    constructor
    · rintro ⟨r, hr, hq⟩
      obtain ⟨rfl, hnarrow⟩ := advance_of_advance32? hr
      obtain ⟨hq, hrest⟩ := (ih (hnarrow hp)).1 hq
      refine ⟨hq, fun ds hds => ?_⟩
      -- The empty beginning ends where the reading starts, all others behind the next place.
      cases ds with
      | nil => exact hp
      | cons d ds =>
        obtain ⟨rfl, hprefix⟩ := List.cons_prefix_cons.1 hds
        exact hrest ds hprefix
    · rintro ⟨hq, hall⟩
      have hnarrow : (p.advance c).Narrow := hall [c] ⟨cs, rfl⟩
      exact ⟨_, advance32?_of_narrow hnarrow,
        (ih hnarrow).2 ⟨hq, fun ds hds => hall (c :: ds) (List.cons_prefix_cons.2 ⟨rfl, hds⟩)⟩⟩

/-! ## Lines -/

theorem line_advanceOver (p : Position) (cs : List Char) :
    (p.advanceOver cs).line = p.line + cs.count '\n' := by
  induction cs generalizing p with
  | nil => rfl
  | cons c cs ih =>
    rw [advanceOver_cons, ih, advance]
    by_cases hc : c = '\n'
    · rw [if_pos hc, hc, List.count_cons_self]
      exact Nat.add_right_comm _ _ _
    · rw [if_neg hc, List.count_cons_of_ne hc]

/-- Reading within a line only moves the column. -/
theorem advanceOver_of_notMem (p : Position) {cs : List Char} (h : '\n' ∉ cs) :
    p.advanceOver cs = ⟨p.offset + Text.size cs, p.line, p.column + cs.length⟩ := by
  induction cs generalizing p with
  | nil => rfl
  | cons c cs ih =>
    rw [List.mem_cons, not_or] at h
    rw [advanceOver_cons, ih _ h.2, advance, if_neg (Ne.symm h.1), Text.size_cons, List.length_cons]
    simp only [Nat.add_assoc, Nat.add_comm 1]

/-- The column counts the characters of the last line. -/
theorem exists_column_start (cs : List Char) :
    ∃ line, line <:+ cs ∧ '\n' ∉ line ∧ (start.advanceOver cs).column = line.length + 1 := by
  by_cases hfeed : '\n' ∈ cs
  · obtain ⟨line, before, hcs, hline⟩ :=
      List.eq_append_cons_of_mem (List.mem_reverse.2 hfeed)
    have hcs : cs = before.reverse ++ '\n' :: line.reverse := by
      rw [← List.reverse_reverse cs, hcs]
      simp
    have hline : '\n' ∉ line.reverse := fun h => hline (List.mem_reverse.1 h)
    refine ⟨line.reverse, ⟨before.reverse ++ ['\n'], by rw [hcs]; simp⟩, hline, ?_⟩
    rw [hcs, advanceOver_append, advanceOver_cons, advanceOver_of_notMem _ hline]
    exact Nat.add_comm 1 _
  · refine ⟨cs, List.suffix_refl cs, hfeed, ?_⟩
    rw [advanceOver_of_notMem _ hfeed]
    exact Nat.add_comm 1 _

end Position

/-- Whether the lines of a text are few enough and each of them is short enough. -/
structure Text.Narrow (cs : List Char) : Prop where
  lines : cs.count '\n' + 1 < UInt32.size
  columns : ∀ line, line <:+: cs → '\n' ∉ line → line.length + 1 < UInt32.size

namespace Text

theorem narrow_iff {cs : List Char} :
    Narrow cs ↔ ∀ ds, ds <+: cs → (Position.start.advanceOver ds).Narrow := by
  have hline : ∀ ds, (Position.start.advanceOver ds).line = 1 + ds.count '\n' :=
    Position.line_advanceOver _
  constructor
  · intro h ds hds
    -- A beginning has no more line feeds than the text, and its last line is a part of one.
    refine ⟨?_, ?_⟩
    · have hcount := hds.sublist.count_le '\n'
      have hlines := h.lines
      rw [hline]
      omega
    · obtain ⟨line, hline, hfeed, hcolumn⟩ := Position.exists_column_start ds
      rw [hcolumn]
      exact h.columns line (hline.isInfix.trans hds.isInfix) hfeed
  · intro h
    refine ⟨?_, ?_⟩
    · have hlast := (h cs (List.prefix_refl cs)).line
      rw [hline] at hlast
      omega
    · rintro line ⟨before, after, hcs⟩ hfeed
      -- The text is read up to the end of the line, where the column is as large as it gets.
      have hread := (h (before ++ line) ⟨after, hcs⟩).column
      obtain ⟨lead, -, -, hbefore⟩ := Position.exists_column_start before
      rw [Position.advanceOver_append, Position.advanceOver_of_notMem _ hfeed, hbefore] at hread
      have hwide : lead.length + 1 + line.length < UInt32.size := hread
      omega

/-- A text that is short as a whole is. -/
theorem narrow_of_size {cs : List Char} (h : size cs + 1 < UInt32.size) : Narrow cs := by
  have hlen := length_le_size cs
  refine ⟨?_, fun line hline _ => ?_⟩
  · have hcount : cs.count '\n' ≤ cs.length := List.count_le_length
    omega
  · have hle := hline.length_le
    omega

end Text

namespace Position

/-- Reading a text overflows nowhere exactly if its lines are short enough and few enough. -/
theorem advanceOver32?_start_iff {cs : List Char} :
    start.advanceOver32? cs = some (start.advanceOver cs) ↔ Text.Narrow cs := by
  rw [advanceOver32?_eq_some_iff narrow_start, Text.narrow_iff]
  exact and_iff_right rfl

end Position

end PipeQuery
