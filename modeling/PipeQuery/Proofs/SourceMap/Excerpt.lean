-- SUMMARY: Messages about a stretch of a text quote the line where it begins and underline it, three columns too far to the right.
import PipeQuery.Proofs.SourceMap.Lines
import PipeQuery.Proofs.Text.Digit

/-! # Excerpts

A message about a stretch of a text quotes the line that the stretch begins on, between a
row that is empty and a row of carets. These two are indented by three columns that the
quoted line does not have in front of its number, so the carets do not stand below the
stretch. -/

namespace PipeQuery

/-! ## Reading a Line -/

/-- Reading over a line feed leaves the line. -/
theorem Position.line_lt_advanceOver (p : Position) {cs : List Char} (h : '\n' ∈ cs) :
    p.line < (p.advanceOver cs).line := by
  obtain ⟨before, after, rfl⟩ := List.append_of_mem h
  rw [advanceOver_append, advanceOver_cons]
  calc p.line ≤ (p.advanceOver before).line := p.line_le_advanceOver before
    _ < ((p.advanceOver before).advance '\n').line := Nat.lt_succ_self _
    _ ≤ (((p.advanceOver before).advance '\n').advanceOver after).line :=
      line_le_advanceOver _ after

namespace Text

/-- Where a beginning of a text ends a line, reading starts the next one. -/
theorem EndsLine.advanceOver_start {front : List Char} (h : EndsLine front) :
    Position.start.advanceOver front = ⟨size front, (lineStarts front).size, 1⟩ := by
  obtain ⟨before, line, hfront, hback, -, hpos⟩ := exists_lastLine front
  have hsize : size before = size front := Option.some.inj (hback.symm.trans (endsLine_iff.1 h))
  have hline : line = [] := by
    rw [hfront, size_append] at hsize
    exact size_eq_zero_iff.1 (by omega)
  rw [hpos, hline]
  rfl

/-! ## Stretches -/

/-- A stretch of a text between two offsets: the lines in front of the one it begins on, what
stands on that line before it, what it covers, and the rest. -/
structure Stretch (source : List Char) (a b : Nat) (front lead covered rest : List Char) : Prop where
  text_eq : source = front ++ (lead ++ (covered ++ rest))
  start_eq : clip a source = front ++ lead
  stop_eq : clip b source = front ++ (lead ++ covered)
  endsLine : EndsLine front
  same_line : '\n' ∉ lead

theorem exists_stretch (source : List Char) {a b : Nat} (h : a ≤ b) :
    ∃ front lead covered rest, Stretch source a b front lead covered rest := by
  obtain ⟨front, lead, hstart, hback, hlead, -⟩ := exists_lastLine (clip a source)
  obtain ⟨covered, hcovered⟩ := clip_prefix_clip h source
  obtain ⟨rest, hrest⟩ := clip_prefix_self b source
  have hstop : clip b source = front ++ (lead ++ covered) := by
    rw [← hcovered, hstart, List.append_assoc]
  rw [hstart, lineStarts_append_of_notMem front hlead] at hback
  refine ⟨front, lead, covered, rest, ?_, hstart, hstop, endsLine_iff.2 hback, hlead⟩
  rw [← hrest, hstop]
  simp

/-! ## What Is Shown -/

theorem firstLine_append_of_mem {cs : List Char} (h : '\n' ∈ cs) (rest : List Char) :
    firstLine (cs ++ rest) = firstLine cs := by
  obtain ⟨line, later, rfl, hline⟩ := List.eq_append_cons_of_mem h
  rw [List.append_assoc, List.cons_append, firstLine_append_feed hline, firstLine_append_feed hline]

theorem firstLine_prefix_append (cs rest : List Char) : firstLine cs <+: firstLine (cs ++ rest) := by
  by_cases h : '\n' ∈ cs
  · rw [firstLine_append_of_mem h]
  · rw [firstLine_append_of_notMem h, firstLine_of_notMem h]
    exact List.prefix_append _ _

theorem notMem_firstLine (cs : List Char) : '\n' ∉ firstLine cs := fun h =>
  absurd (List.mem_takeWhile_imp h) (by decide)

end Text

namespace SourceMap

/-- The line of a stretch as it is quoted. -/
def shownLine (lead covered rest : List Char) : List Char :=
  trimReturns (lead ++ Text.firstLine (covered ++ rest))

/-- What the quoted line shows of the stretch itself. -/
def shownPart (lead covered rest : List Char) : List Char :=
  ((shownLine lead covered rest).take (lead ++ Text.firstLine covered).length).drop lead.length

section Shown

variable {lead covered : List Char}

theorem notMem_shownLine (h : '\n' ∉ lead) (covered rest : List Char) :
    '\n' ∉ shownLine lead covered rest := by
  intro hmem
  rcases List.mem_append.1 ((trimReturns_prefix_self _).subset hmem) with hlead | hline
  · exact h hlead
  · exact Text.notMem_firstLine _ hline

theorem shownPart_prefix_firstLine (lead covered rest : List Char) :
    shownPart lead covered rest <+: Text.firstLine covered := by
  obtain ⟨later, hlater⟩ := Text.firstLine_prefix_append covered rest
  have hline : shownLine lead covered rest <+: lead ++ Text.firstLine covered ++ later := by
    rw [List.append_assoc, hlater]
    exact trimReturns_prefix_self _
  have hpart := (hline.take (lead ++ Text.firstLine covered).length).drop lead.length
  rwa [List.take_left, List.drop_left] at hpart

theorem shownPart_eq_iff (h : '\n' ∉ covered) (rest : List Char) :
    shownPart lead covered rest = covered ↔
      covered.length ≤ (shownPart lead covered rest).length := by
  have hpart := shownPart_prefix_firstLine lead covered rest
  rw [Text.firstLine_of_notMem h] at hpart
  exact ⟨fun heq => (congrArg List.length heq).ge, hpart.eq_of_length_le⟩

/-- All that is quoted behind the lead is shown of a stretch that goes on to another line. -/
theorem length_shownPart (h : '\n' ∈ covered) (rest : List Char) :
    (shownPart lead covered rest).length = (shownLine lead covered rest).length - lead.length := by
  have hline : (shownLine lead covered rest).length ≤ (lead ++ Text.firstLine covered).length := by
    rw [← Text.firstLine_append_of_mem h rest]
    exact (trimReturns_prefix_self _).length_le
  rw [shownPart, List.take_of_length_le hline, List.length_drop]

end Shown

/-! ## Rows -/

/-- What stands in front of a quoted line: its number and a bar. -/
def margin (number : Nat) : List Char := (toString number).toList ++ [' ', '|', ' ']

/-- The row above a quoted line. -/
def gutterRow (number : Nat) : List Char :=
  List.replicate (3 + (toString number).length) ' ' ++ [' ', '|']

/-- What stands in front of the carets below a quoted line. -/
def caretIndent (start : Position) : List Char :=
  gutterRow start.line ++ List.replicate start.column ' '

theorem notMem_margin (number : Nat) : '\n' ∉ margin number := by
  intro h
  rcases List.mem_append.1 h with hdigit | hbar
  · have hdigits : (toString number).toList = Nat.toDigits 10 number := String.toList_ofList
    exact absurd (Text.isDigit_of_mem_toDigits _ (hdigits ▸ hdigit)) (by decide)
  · exact absurd hbar (by decide)

theorem notMem_gutterRow {c : Char} (hspace : c ≠ ' ') (hbar : c ≠ '|') (number : Nat) :
    c ∉ gutterRow number := by
  simp [gutterRow, hspace, hbar]

theorem notMem_caretIndent {c : Char} (hspace : c ≠ ' ') (hbar : c ≠ '|') (start : Position) :
    c ∉ caretIndent start := by
  simp [caretIndent, notMem_gutterRow hspace hbar, hspace]

theorem length_caretIndent {start : Position} (h : 0 < start.column) :
    (caretIndent start).length = (margin start.line).length + (start.column - 1) + 3 := by
  simp only [caretIndent, gutterRow, margin, List.length_append, List.length_replicate,
    String.length_toList, List.length_cons, List.length_nil]
  omega

/-- The row below a quoted line. -/
def caretRow (line : List Char) (s : Span) : List Char :=
  caretIndent s.start ++ List.replicate (underlineWidth line s) '^'

theorem toList_excerpt (line : List Char) (s : Span) (h : 0 < s.start.column) :
    (excerpt line s).toList =
      gutterRow s.start.line ++ '\n' :: (margin s.start.line ++ line ++ '\n' ::
        (caretRow line s ++ ['\n'])) := by
  have hself : ∀ t : String, toString t = t := fun _ => rfl
  have hcolumn : List.replicate s.start.column ' ' = ' ' :: List.replicate (s.start.column - 1) ' ' := by
    rw [← List.replicate_succ, Nat.sub_add_cancel h]
  simp [excerpt, row, hself, gutterRow, margin, caretRow, caretIndent, hcolumn, List.replicate_add]

/-- The first caret stands behind the indent, since there is at least one. -/
theorem idxOf_caretRow (line : List Char) (s : Span) :
    (caretRow line s).idxOf '^' = (caretIndent s.start).length := by
  have hcaret : '^' ∉ caretIndent s.start := notMem_caretIndent (by decide) (by decide) _
  have hwidth : underlineWidth line s ≠ 0 := Nat.ne_of_gt (Nat.le_max_right _ 1)
  obtain ⟨later, hlater⟩ := Nat.exists_eq_succ_of_ne_zero hwidth
  rw [caretRow, List.idxOf_append_of_notMem hcaret, hlater, List.replicate_succ, List.idxOf_cons_self,
    Nat.add_zero]

theorem drop_caretRow (line : List Char) (s : Span) :
    (caretRow line s).drop ((caretRow line s).idxOf '^') =
      List.replicate (underlineWidth line s) '^' := by
  rw [idxOf_caretRow, caretRow, List.drop_left]

theorem notMem_caretRow (line : List Char) (s : Span) : '\n' ∉ caretRow line s := by
  intro h
  rcases List.mem_append.1 h with hindent | hcaret
  · exact notMem_caretIndent (by decide) (by decide) _ hindent
  · exact absurd (List.eq_of_mem_replicate hcaret) (by decide)

/-! ## Carets -/

section Stretch

variable {source front lead covered rest : List Char} {a b : Nat}

/-- The span of a text between two offsets. -/
def spanAt (source : List Char) (a b : Nat) : Span :=
  ⟨(ofText source).positionAt a, (ofText source).positionAt b⟩

theorem spanAt_start (h : Text.Stretch source a b front lead covered rest) :
    (spanAt source a b).start =
      ⟨Text.size front + Text.size lead, (Text.lineStarts front).size, 1 + lead.length⟩ := by
  rw [spanAt, positionAt_eq, h.start_eq, Position.advanceOver_append, h.endsLine.advanceOver_start,
    Position.advanceOver_of_notMem _ h.same_line]

theorem spanAt_stop (h : Text.Stretch source a b front lead covered rest) :
    (spanAt source a b).stop = (spanAt source a b).start.advanceOver covered := by
  simp only [spanAt, positionAt_eq, h.start_eq, h.stop_eq, Position.advanceOver_append]

theorem line?_of_stretch (h : Text.Stretch source a b front lead covered rest) :
    (ofText source).line? (spanAt source a b).start.line = some (shownLine lead covered rest) := by
  rw [spanAt_start h, h.text_eq, line?_of_endsLine h.endsLine,
    Text.firstLine_append_of_notMem h.same_line, shownLine]

theorem underlineWidth_of_stretch (h : Text.Stretch source a b front lead covered rest) :
    underlineWidth (shownLine lead covered rest) (spanAt source a b) =
      max (if '\n' ∈ covered then (shownPart lead covered rest).length else covered.length) 1 := by
  rw [underlineWidth, spanAt_stop h]
  by_cases hcovered : '\n' ∈ covered
  · have hline := (spanAt source a b).start.line_lt_advanceOver hcovered
    rw [if_neg hline.ne, if_pos hcovered, length_shownPart hcovered, spanAt_start h]
    simp only [Nat.add_comm 1, Nat.add_sub_add_right]
  · rw [Position.advanceOver_of_notMem _ hcovered, if_pos rfl, if_neg hcovered]
    simp only [Nat.add_sub_cancel_left]

/-- Carets and what is shown are as many, but for a stretch within a line whose end is taken off. -/
theorem caretCount_eq_iff (lead covered rest : List Char) :
    max (if '\n' ∈ covered then (shownPart lead covered rest).length else covered.length) 1 =
        max (shownPart lead covered rest).length 1 ↔
      '\n' ∈ covered ∨ shownPart lead covered rest = covered ∨ covered.length ≤ 1 := by
  by_cases hcovered : '\n' ∈ covered
  · rw [if_pos hcovered]
    exact iff_of_true rfl (.inl hcovered)
  · have hle := (shownPart_prefix_firstLine lead covered rest).length_le
    rw [Text.firstLine_of_notMem hcovered] at hle
    rw [if_neg hcovered, shownPart_eq_iff hcovered]
    simp only [hcovered, false_or]
    omega

end Stretch

/-- A message about a stretch of a text quotes the line it begins on. The carets below begin
three columns to the right of the stretch, and are as many as the characters shown of it unless
carriage returns that it covers are taken off the line. Lines and columns of 32 bits do for the
span unless a line of the text is too long, or it has too many. -/
theorem formatError_of_stretch (source : List Char) {a b : Nat} (h : a ≤ b) (message : String) :
    ∃ front lead covered rest, Text.Stretch source a b front lead covered rest ∧
      ∃ gutter sourceRow carets count,
        ((ofText source).formatError (spanAt source a b) message).toList =
          s!"Error: {message}\n  --> {(spanAt source a b).start.render}\n".toList ++
            (gutter ++ '\n' :: (sourceRow ++ '\n' :: (carets ++ ['\n']))) ∧
        '\n' ∉ gutter ∧ '\n' ∉ sourceRow ∧ '\n' ∉ carets ∧
        sourceRow = margin (spanAt source a b).start.line ++ shownLine lead covered rest ∧
        carets.idxOf '^' = (margin (spanAt source a b).start.line).length + lead.length + 3 ∧
        carets.drop (carets.idxOf '^') = List.replicate count '^' ∧
        count = max (if '\n' ∈ covered then (shownPart lead covered rest).length
          else covered.length) 1 ∧
        (count = max (shownPart lead covered rest).length 1 ↔
          '\n' ∈ covered ∨ shownPart lead covered rest = covered ∨ covered.length ≤ 1) ∧
        (Text.Narrow source →
          (ofText source).positionAt32? a = some (spanAt source a b).start ∧
          (ofText source).positionAt32? b = some (spanAt source a b).stop) := by
  obtain ⟨front, lead, covered, rest, hstretch⟩ := Text.exists_stretch source h
  have hstart := spanAt_start hstretch
  -- Columns are counted from one.
  have hcolumn : (spanAt source a b).start.column - 1 = lead.length := by
    rw [hstart]
    exact Nat.add_sub_cancel_left 1 _
  have hpos : 0 < (spanAt source a b).start.column := by
    rw [hstart]
    exact Nat.lt_of_lt_of_le Nat.zero_lt_one (Nat.le_add_right _ _)
  refine ⟨front, lead, covered, rest, hstretch, gutterRow (spanAt source a b).start.line, _,
    caretRow (shownLine lead covered rest) (spanAt source a b), _, ?_, ?_, ?_, ?_, rfl, ?_,
    drop_caretRow _ _, underlineWidth_of_stretch hstretch, ?_, fun hnarrow => ?_⟩
  · rw [formatError, line?_of_stretch hstretch, String.toList_append, toList_excerpt _ _ hpos]
  · exact notMem_gutterRow (by decide) (by decide) _
  · rw [List.mem_append, not_or]
    exact ⟨notMem_margin _, notMem_shownLine hstretch.same_line _ _⟩
  · exact notMem_caretRow _ _
  · rw [idxOf_caretRow, length_caretIndent hpos, hcolumn]
  · rw [underlineWidth_of_stretch hstretch]
    exact caretCount_eq_iff lead covered rest
  · exact ⟨positionAt32?_iff.2 hnarrow a, positionAt32?_iff.2 hnarrow b⟩

/-- A carriage return that is not shown is underlined, too. -/
theorem formatError_of_stretch_over_return :
    0 ≤ 2 ∧ ∃ header gutter sourceRow carets,
      ((ofText "a\r\nb".toList).formatError (spanAt "a\r\nb".toList 0 2) "m").toList =
        header ++ (gutter ++ '\n' :: (sourceRow ++ '\n' :: (carets ++ ['\n']))) ∧
      sourceRow = margin 1 ++ ['a'] ∧ carets.drop (carets.idxOf '^') = ['^', '^'] := by
  obtain ⟨front, lead, covered, rest, hstretch, gutter, sourceRow, carets, count, htext, -, -, -,
    hsource, -, hcarets, hcount, -⟩ := formatError_of_stretch "a\r\nb".toList (Nat.zero_le 2) "m"
  obtain ⟨rfl, rfl⟩ := List.append_eq_nil_iff.1 hstretch.start_eq.symm
  obtain rfl : ['a', '\r'] = covered := hstretch.stop_eq
  have hrest : ['a', '\r'] ++ ['\n', 'b'] = ['a', '\r'] ++ rest := hstretch.text_eq
  obtain rfl : ['\n', 'b'] = rest := List.append_cancel_left hrest
  have hline : (spanAt "a\r\nb".toList 0 2).start.line = 1 := by
    rw [spanAt_start hstretch]
    rfl
  refine ⟨Nat.zero_le 2, _, gutter, sourceRow, carets, htext, ?_, ?_⟩
  · rw [hsource, hline]
    rfl
  · rw [hcarets, hcount]
    rfl

/-- A mark in the tenth column of the quoted row is underlined in the thirteenth. -/
theorem formatError_misses_stretch :
    ((ofText "FROM \"abc".toList).formatError (spanAt "FROM \"abc".toList 5 6) "m") =
      "Error: m\n  --> 1:6\n     |\n1 | FROM \"abc\n     |      ^\n" ∧
    "     |      ^".toList.idxOf '^' ≠ "1 | FROM \"abc".toList.idxOf '"' := by
  have hspan : spanAt "FROM \"abc".toList 5 6 = ⟨⟨5, 1, 6⟩, ⟨6, 1, 7⟩⟩ := by
    simp only [spanAt, positionAt_eq]
    decide
  rw [hspan]
  decide

end SourceMap

end PipeQuery
