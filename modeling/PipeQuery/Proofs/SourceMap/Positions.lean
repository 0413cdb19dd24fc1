-- SUMMARY: Positions that are looked up by offset agree with those that reading counts, for every offset and every token, and stay within 32 bits.
import PipeQuery.Proofs.Position.Width
import PipeQuery.Proofs.SourceMap.LineStarts
import PipeQuery.Proofs.Tokenizer.Tiling

/-! # Positions of Offsets

Reading a text counts lines and columns character by character. A source map finds
them from the line starts. Both agree, since the last line start that reading has
passed begins the line it is on. -/

namespace PipeQuery

/-! ## Reading -/

/-- Reading on does not go back. -/
theorem Position.isBefore_advanceOver (p : Position) (cs : List Char) :
    (p.advanceOver cs).isBefore p = false := by
  by_cases hne : cs = []
  · subst hne
    simp [isBefore]
  · have hpos : 0 < Text.size cs := Nat.pos_of_ne_zero fun h => hne (Text.size_eq_zero_iff.1 h)
    have hless : ¬p.offset + Text.size cs < p.offset := Nat.not_lt.2 (Nat.le_add_right _ _)
    simp [isBefore, hless, hpos.ne']

/-- A text ends on the last of its lines, behind the characters of that line. -/
theorem Text.exists_lastLine (cs : List Char) :
    ∃ before line, cs = before ++ line ∧ (lineStarts cs).back? = some (size before) ∧
      '\n' ∉ line ∧
      Position.start.advanceOver cs = ⟨size cs, (lineStarts cs).size, line.length + 1⟩ := by
  induction cs using List.reverseRecOn with
  | nil => exact ⟨[], [], rfl, rfl, List.not_mem_nil, rfl⟩
  | append_singleton cs c ih =>
    obtain ⟨before, line, hcs, hback, hline, hpos⟩ := ih
    rw [lineStarts_append_singleton, Position.advanceOver_append, hpos, Position.advanceOver_cons,
      Position.advanceOver_nil, Position.advance]
    -- A line feed opens a line without characters, and all else makes the last line longer.
    by_cases hc : c = '\n'
    · subst hc
      refine ⟨cs ++ ['\n'], [], (List.append_nil _).symm, ?_, List.not_mem_nil, ?_⟩
      · rw [if_pos rfl, Array.back?_push, size_append]
        rfl
      · rw [if_pos rfl, if_pos rfl, Array.size_push, size_append]
        rfl
    · refine ⟨before, line ++ [c], by rw [hcs, List.append_assoc], ?_, ?_, ?_⟩
      · rw [if_neg hc, hback]
      · simpa [Ne.symm hc] using hline
      · rw [if_neg hc, if_neg hc, size_append, size_cons, size_nil, Nat.add_zero,
          List.length_append]
        rfl

theorem Position.line_le_advanceOver (p : Position) (cs : List Char) :
    p.line ≤ (p.advanceOver cs).line := by
  rw [line_advanceOver]
  exact Nat.le_add_right _ _

namespace SourceMap

/-! ## Lookup -/

/-- The search for the end of a beginning leads to its last line. -/
theorem lineIndex_append (ds es : List Char) :
    (ofText (ds ++ es)).lineIndex (Text.size ds) = (Text.lineStarts ds).size - 1 ∧
      (ofText (ds ++ es)).lineStarts[(Text.lineStarts ds).size - 1]? = (Text.lineStarts ds).back? := by
  obtain ⟨before, line, hds, hback, -, -⟩ := Text.exists_lastLine ds
  obtain ⟨later, hstarts, hlater⟩ := Text.lineStarts_append ds es
  have hpos := Text.size_lineStarts_pos ds
  have hlast : (Text.lineStarts (ds ++ es))[(Text.lineStarts ds).size - 1]? =
      (Text.lineStarts ds).back? := by
    rw [hstarts, Array.getElem?_append_left (Nat.sub_one_lt hpos.ne'), Array.back?_eq_getElem?]
  refine ⟨search_eq (Text.ascending_lineStarts _) ⟨Text.size before, ?_, ?_⟩ ?_, hlast⟩
  · exact hlast.trans hback
  · rw [hds, Text.size_append]
    exact Nat.le_add_right _ _
  · intro i y hi hy
    have hle : (Text.lineStarts ds).size ≤ i := Nat.le_of_pred_lt hi
    have hy' : (Text.lineStarts ds ++ later)[i]? = some y := hstarts ▸ hy
    rw [Array.getElem?_append_right hle] at hy'
    exact hlater y (Array.mem_of_getElem? hy')

/-- What stands between the start of a line and an offset in it. -/
theorem lineBefore_append {before line es : List Char} {index : Nat}
    (h : (ofText (before ++ line ++ es)).lineStarts[index]? = some (Text.size before)) :
    (ofText (before ++ line ++ es)).lineBefore index (Text.size (before ++ line)) = line := by
  have hslice := Text.slice?_size_append before line es
  have htext : (ofText (before ++ line ++ es)).text = before ++ line ++ es := rfl
  rw [← List.append_assoc, ← Text.size_append] at hslice
  rw [lineBefore, Array.getD_eq_getD_getElem?, h, Option.getD_some, htext, hslice]
  rfl

theorem positionAt_of_floorBoundary {ds es : List Char} {offset : Nat}
    (h : Text.floorBoundary (ds ++ es) (min offset (Text.size (ds ++ es))) = Text.size ds) :
    (ofText (ds ++ es)).positionAt offset = Position.start.advanceOver ds := by
  -- Both sides are read off the last line: the search finds its index, the slice its characters.
  obtain ⟨before, line, rfl, hback, -, hpos⟩ := Text.exists_lastLine ds
  obtain ⟨hindex, hstart⟩ := lineIndex_append (before ++ line) es
  have hsize := Text.size_lineStarts_pos (before ++ line)
  have hline := lineBefore_append (hstart.trans hback)
  have htext : (ofText (before ++ line ++ es)).text = before ++ line ++ es := rfl
  rw [positionAt, htext, h, hindex, hline, hpos, Nat.sub_add_cancel hsize]

/-- The position of an offset is where reading stops that goes no further. -/
theorem positionAt_eq (cs : List Char) (offset : Nat) :
    (ofText cs).positionAt offset = Position.start.advanceOver (Text.clip offset cs) := by
  obtain ⟨es, hcs⟩ := Text.clip_prefix_self offset cs
  have hfloor : Text.floorBoundary cs (min offset (Text.size cs)) =
      Text.size (Text.clip offset cs) := by
    rw [Text.floorBoundary_eq, Text.clip_min_size]
  have hread := @positionAt_of_floorBoundary (Text.clip offset cs) es offset (by rw [hcs, hfloor])
  rwa [hcs] at hread

/-- Later offsets have later positions, on the same line or a later one. -/
theorem positionAt_mono {cs : List Char} {offset later : Nat} (h : offset ≤ later) :
    ((ofText cs).positionAt later).isBefore ((ofText cs).positionAt offset) = false ∧
      ((ofText cs).positionAt offset).line ≤ ((ofText cs).positionAt later).line := by
  obtain ⟨between, hbetween⟩ := Text.clip_prefix_clip h cs
  rw [positionAt_eq, positionAt_eq, ← hbetween, Position.advanceOver_append]
  exact ⟨Position.isBefore_advanceOver _ _, Position.line_le_advanceOver _ _⟩

/-- The offset that reading has reached is looked up to where it has reached. -/
theorem positionAt_offset (ds es : List Char) :
    (ofText (ds ++ es)).positionAt (Position.start.advanceOver ds).offset =
      Position.start.advanceOver ds := by
  have hoffset : (Position.start.advanceOver ds).offset = Text.size ds := by
    rw [Position.advanceOver_offset, Position.start, Nat.zero_add]
  rw [hoffset, positionAt_eq, Text.clip_size_append]

/-- Whatever the tokens of a run have counted is what their offsets are looked up to. -/
theorem positionAt_of_tiling {source : List Char} {tokens : List Token}
    (h : Tiling .start source tokens) :
    ∀ t ∈ tokens, (ofText source).positionAt t.span.start.offset = t.span.start ∧
      (ofText source).positionAt t.span.stop.offset = t.span.stop := by
  intro t ht
  obtain ⟨before, after, rfl, hspan⟩ := h.covering_of_mem t ht
  rw [hspan, Span.covering, ← Position.advanceOver_append]
  refine ⟨positionAt_offset before _, ?_⟩
  rw [← List.append_assoc]
  exact positionAt_offset (before ++ t.text.toList) after

/-- The end of a text is on its last line. -/
theorem line_advanceOver_start (cs : List Char) :
    (Position.start.advanceOver cs).line = (ofText cs).lineCount := by
  obtain ⟨before, line, -, -, -, hpos⟩ := Text.exists_lastLine cs
  rw [hpos]
  rfl

end SourceMap

/-! ## Lines and Columns of 32 Bits -/

namespace SourceMap

/-- The position of an offset, whose line and column are cut to 32 bits before one
is added. -/
def positionAt32? (m : SourceMap) (offset : Nat) : Option Position := do
  let offset := Text.floorBoundary m.text (min offset (Text.size m.text))
  let index := m.lineIndex offset
  let line ← succ32? (index % UInt32.size)
  let column ← succ32? ((m.lineBefore index offset).length % UInt32.size)
  return { offset, line, column }

theorem positionAt32?_eq {m : SourceMap} {offset : Nat} (h : (m.positionAt offset).Narrow) :
    m.positionAt32? offset = some (m.positionAt offset) := by
  have hindex := Nat.mod_eq_of_lt (Nat.lt_of_succ_lt h.line)
  have hcount := Nat.mod_eq_of_lt (Nat.lt_of_succ_lt h.column)
  simp only [positionAt32?, hindex, hcount]
  rw [succ32?_eq_some_iff.2 ⟨rfl, h.line⟩, succ32?_eq_some_iff.2 ⟨rfl, h.column⟩]
  rfl

theorem narrow_of_positionAt32? {m : SourceMap} {offset : Nat} {p : Position}
    (h : m.positionAt32? offset = some p) : p.Narrow := by
  simp only [positionAt32?, Option.bind_eq_bind, Option.bind_eq_some_iff] at h
  obtain ⟨line, hline, column, hcolumn, hp⟩ := h
  obtain rfl := Option.some.inj hp
  exact ⟨(succ32?_eq_some_iff.1 hline).2, (succ32?_eq_some_iff.1 hcolumn).2⟩

/-- All offsets of a text are looked up in 32 bits exactly if its lines are short enough and few
enough. -/
theorem positionAt32?_iff {source : List Char} :
    (∀ offset, (ofText source).positionAt32? offset = some ((ofText source).positionAt offset)) ↔
      Text.Narrow source := by
  constructor
  · intro h
    refine Text.narrow_iff.2 fun ds hds => ?_
    obtain ⟨es, rfl⟩ := hds
    have hread := narrow_of_positionAt32? (h (Position.start.advanceOver ds).offset)
    rwa [positionAt_offset] at hread
  · intro h offset
    refine positionAt32?_eq ?_
    rw [positionAt_eq]
    exact Text.narrow_iff.1 h _ (Text.clip_prefix_self offset source)

end SourceMap

/-! ## Agreement -/

/-- The longest beginning of a text that ends at an offset or in front of it. -/
structure LongestUpTo (offset : Nat) (cs ds : List Char) : Prop where
  begins : ds <+: cs
  size_le : Text.size ds ≤ offset
  longest : ∀ p, p <+: cs → Text.size p ≤ offset → p <+: ds

theorem longestUpTo_clip (offset : Nat) (cs : List Char) :
    LongestUpTo offset cs (Text.clip offset cs) where
  begins := Text.clip_prefix_self offset cs
  size_le := Text.size_clip_le offset cs
  longest _ hp hsize := Text.prefix_clip hp hsize

/-- Looking up an offset agrees with reading up to the last character boundary that
does not lie behind it, so positions follow offsets, tokens know where they stand and
the end of input is on the last line. Texts of up to a gigabyte need no more than 32
bits for it. -/
theorem positions_agree (source : List Char) (h : Text.size source ≤ 1000000000) :
    (∀ offset, ∃ ds, LongestUpTo (min offset (Text.size source)) source ds ∧
      (SourceMap.ofText source).positionAt offset = Position.start.advanceOver ds) ∧
    (∀ offset later, offset ≤ later →
      ((SourceMap.ofText source).positionAt later).isBefore
        ((SourceMap.ofText source).positionAt offset) = false ∧
      ((SourceMap.ofText source).positionAt offset).line ≤
        ((SourceMap.ofText source).positionAt later).line) ∧
    (∀ maxDepth, ∀ t ∈ (Tokenizer.start maxDepth source).tokens,
      (SourceMap.ofText source).positionAt t.span.start.offset = t.span.start ∧
      (SourceMap.ofText source).positionAt t.span.stop.offset = t.span.stop) ∧
    (∀ maxDepth, ∃ t, (Tokenizer.start maxDepth source).tokens.getLast? = some t ∧
      t.kind = .eof ∧ t.span.start.line = (SourceMap.ofText source).lineCount) ∧
    (∀ offset, (SourceMap.ofText source).positionAt32? offset =
      some ((SourceMap.ofText source).positionAt offset)) ∧
    ∀ maxDepth, ∀ t ∈ (Tokenizer.start maxDepth source).tokens,
      t.span.start.advanceOver32? t.text.toList = some t.span.stop := by
  -- A text of that size has not enough characters for a line or a column to overflow.
  have hnarrow : Text.Narrow source :=
    Text.narrow_of_size (Nat.lt_of_le_of_lt (Nat.succ_le_succ h) (by decide))
  have htiling : ∀ maxDepth, Tiling .start source (Tokenizer.start maxDepth source).tokens :=
    fun maxDepth => Tokenizer.tiling_tokens (Tokenizer.start maxDepth source) rfl
  refine ⟨fun offset => ?_, fun offset later hle => SourceMap.positionAt_mono hle,
    fun maxDepth => SourceMap.positionAt_of_tiling (htiling maxDepth), fun maxDepth => ?_,
    SourceMap.positionAt32?_iff.2 hnarrow,
    fun maxDepth => (htiling maxDepth).advanceOver32?_iff.2 hnarrow⟩
  · refine ⟨_, longestUpTo_clip _ source, ?_⟩
    rw [SourceMap.positionAt_eq, Text.clip_min_size]
  · exact ⟨_, (htiling maxDepth).getLast?, rfl, SourceMap.line_advanceOver_start source⟩

/-- An offset inside a character falls back to its start, and a line feed at the end
starts a line. -/
theorem positions_agree_of_two_lines :
    Text.size "é\n".toList ≤ 1000000000 ∧
    (SourceMap.ofText "é\n".toList).positionAt32? 1 = some ⟨0, 1, 1⟩ ∧
    ∃ t, (Tokenizer.start 4 "é\n".toList).tokens.getLast? = some t ∧
      t.kind = .eof ∧ t.span.start.line = 2 := by
  obtain ⟨-, -, -, hlast, hwidth, -⟩ := positions_agree "é\n".toList (by decide)
  have hinside : (SourceMap.ofText "é\n".toList).positionAt 1 = ⟨0, 1, 1⟩ := by
    rw [SourceMap.positionAt_eq]
    decide
  exact ⟨by decide, hinside ▸ hwidth 1, hlast 4⟩

end PipeQuery
