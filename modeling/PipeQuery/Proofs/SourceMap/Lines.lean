-- SUMMARY: The lines of a text with their terminators, and what a source map gives of them: a line up to its terminator, less the carriage returns at its end.
import Mathlib.Data.List.DropRight
import PipeQuery.Proofs.SourceMap.Positions

/-! # Lines

A line feed ends a line, and a carriage return in front of it is part of the terminator.
Only one of them is: any other carriage return is a character of its line. A source map
looks its lines up from where they start, and takes them all off. -/

namespace PipeQuery

namespace Text

/-! ## Lines and Terminators -/

/-- A line and what ends it, which is nothing where the text ends. -/
structure Line where
  body : List Char
  ending : List Char
  deriving DecidableEq, Repr

/-- A line with its terminator. -/
def Line.text (l : Line) : List Char := l.body ++ l.ending

inductive Lines : List Char → List Line → Prop where
  | last {body : List Char} : '\n' ∉ body → Lines body [⟨body, []⟩]
  | feed {body rest : List Char} {lines : List Line} : '\n' ∉ body → body.getLast? ≠ some '\r' →
      Lines rest lines → Lines (body ++ '\n' :: rest) (⟨body, ['\n']⟩ :: lines)
  | returnFeed {body rest : List Char} {lines : List Line} : '\n' ∉ body →
      Lines rest lines → Lines (body ++ '\r' :: '\n' :: rest) (⟨body, ['\r', '\n']⟩ :: lines)

/-- The characters in front of the first line feed. -/
def firstLine (cs : List Char) : List Char := cs.takeWhile (· != '\n')

theorem firstLine_append_of_notMem {line : List Char} (h : '\n' ∉ line) (cs : List Char) :
    firstLine (line ++ cs) = line ++ firstLine cs :=
  List.takeWhile_append_of_pos fun _ hc => bne_iff_ne.2 fun heq => h (heq ▸ hc)

theorem firstLine_of_notMem {cs : List Char} (h : '\n' ∉ cs) : firstLine cs = cs := by
  have happend := firstLine_append_of_notMem h []
  rwa [List.append_nil, show firstLine [] = [] from rfl, List.append_nil] at happend

theorem firstLine_append_feed {line : List Char} (h : '\n' ∉ line) (rest : List Char) :
    firstLine (line ++ '\n' :: rest) = line := by
  have hstop : firstLine ('\n' :: rest) = [] := rfl
  rw [firstLine_append_of_notMem h, hstop, List.append_nil]

/-- A text has a first line feed, or it is a single line. -/
theorem cases_firstLine (cs : List Char) :
    '\n' ∉ cs ∨ ∃ line rest, cs = line ++ '\n' :: rest ∧ '\n' ∉ line := by
  by_cases h : '\n' ∈ cs
  · exact .inr (List.eq_append_cons_of_mem h)
  · exact .inl h

/-- The first line feed parts a text in one way only. -/
theorem eq_of_append_feed {line line' rest rest' : List Char} (h : '\n' ∉ line) (h' : '\n' ∉ line')
    (heq : line ++ '\n' :: rest = line' ++ '\n' :: rest') : line = line' ∧ rest = rest' := by
  have hline := congrArg firstLine heq
  rw [firstLine_append_feed h, firstLine_append_feed h'] at hline
  subst hline
  exact ⟨rfl, (List.cons.inj (List.append_cancel_left heq)).2⟩

theorem exists_lines (cs : List Char) : ∃ lines, Lines cs lines := by
  induction hlength : cs.length using Nat.strongRecOn generalizing cs with
  | ind n ih =>
    subst hlength
    rcases cases_firstLine cs with hlast | ⟨line, rest, rfl, hline⟩
    · exact ⟨_, .last hlast⟩
    · obtain ⟨lines, hlines⟩ := ih rest.length (by simp; omega) rest rfl
      by_cases hreturn : line.getLast? = some '\r'
      · obtain ⟨body, rfl⟩ := List.getLast?_eq_some_iff.1 hreturn
        have hbody : '\n' ∉ body := fun h => hline (List.mem_append_left _ h)
        refine ⟨⟨body, ['\r', '\n']⟩ :: lines, ?_⟩
        simpa using Lines.returnFeed hbody hlines
      · exact ⟨_, .feed hline hreturn hlines⟩

/-- What stands in front of the first line feed decides on the first line. -/
theorem Lines.of_append_feed {line rest : List Char} {lines : List Line} (hline : '\n' ∉ line)
    (h : Lines (line ++ '\n' :: rest) lines) :
    ∃ first later, lines = first :: later ∧ Lines rest later ∧
      (line.getLast? ≠ some '\r' ∧ first = ⟨line, ['\n']⟩ ∨
        ∃ body, line = body ++ ['\r'] ∧ first = ⟨body, ['\r', '\n']⟩) := by
  generalize hcs : line ++ '\n' :: rest = cs at h
  cases h with
  | last hbody =>
    subst hcs
    exact absurd (by simp) hbody
  | feed hbody hreturn hrest =>
    obtain ⟨rfl, rfl⟩ := eq_of_append_feed hline hbody hcs
    exact ⟨_, _, rfl, hrest, .inl ⟨hreturn, rfl⟩⟩
  | @returnFeed body rest' later hbody hrest =>
    have hline' : '\n' ∉ body ++ ['\r'] := by simpa using hbody
    have hcs' : line ++ '\n' :: rest = body ++ ['\r'] ++ '\n' :: rest' := by simpa using hcs
    obtain ⟨rfl, rfl⟩ := eq_of_append_feed hline hline' hcs'
    exact ⟨_, _, rfl, hrest, .inr ⟨body, rfl, rfl⟩⟩

/-- A text has its lines in one way only. -/
theorem Lines.unique {cs : List Char} {lines lines' : List Line} (h : Lines cs lines)
    (h' : Lines cs lines') : lines' = lines := by
  induction h generalizing lines' with
  | @last body hbody =>
    cases h' with
    | last => rfl
    | feed => exact absurd (by simp) hbody
    | returnFeed => exact absurd (by simp) hbody
  | feed hbody hreturn _ ih =>
    obtain ⟨first, later, rfl, hlater, ⟨-, rfl⟩ | ⟨body, rfl, -⟩⟩ := h'.of_append_feed hbody
    · rw [ih hlater]
    · exact absurd (by simp) hreturn
  | @returnFeed body rest lines hbody _ ih =>
    have hline : '\n' ∉ body ++ ['\r'] := by simpa using hbody
    have hcs : Lines (body ++ ['\r'] ++ '\n' :: rest) lines' := by simpa using h'
    obtain ⟨first, later, rfl, hlater, ⟨hno, -⟩ | ⟨body', heq, rfl⟩⟩ := hcs.of_append_feed hline
    · exact absurd (by simp) hno
    · rw [ih hlater, List.append_cancel_right heq]

/-- The lines with their terminators are the text. -/
theorem Lines.flatMap_text {cs : List Char} {lines : List Line} (h : Lines cs lines) :
    lines.flatMap Line.text = cs := by
  induction h with
  | last => simp [Line.text]
  | feed _ _ _ ih => simp [Line.text, ih]
  | returnFeed _ _ ih => simp [Line.text, ih]

/-! ## Line Starts -/

/-- Without a line feed no line starts. -/
theorem lineStarts_append_of_notMem (cs : List Char) {line : List Char} (h : '\n' ∉ line) :
    lineStarts (cs ++ line) = lineStarts cs := by
  induction line using List.reverseRecOn with
  | nil => rw [List.append_nil]
  | append_singleton line c ih =>
    rw [List.mem_append, not_or, List.mem_singleton] at h
    rw [← List.append_assoc, lineStarts_append_singleton, if_neg (Ne.symm h.2), ih h.1]

/-- Behind a line feed the next line starts. -/
theorem lineStarts_append_feed (cs : List Char) {line : List Char} (h : '\n' ∉ line) :
    lineStarts (cs ++ (line ++ ['\n'])) = (lineStarts cs).push (size (cs ++ line) + 1) := by
  rw [← List.append_assoc, lineStarts_append_singleton, if_pos rfl, lineStarts_append_of_notMem cs h]

/-- Whether a beginning of a text goes up to where a line starts. -/
def EndsLine (front : List Char) : Prop := ∀ c ∈ front.getLast?, c = '\n'

theorem endsLine_nil : EndsLine [] := nofun

theorem endsLine_append_feed (cs line : List Char) : EndsLine (cs ++ (line ++ ['\n'])) := by
  rw [← List.append_assoc]
  simp [EndsLine]

/-- Only then does the last line that starts in it start at its end. -/
theorem endsLine_iff {front : List Char} :
    EndsLine front ↔ (lineStarts front).back? = some (size front) := by
  rcases List.eq_nil_or_concat front with rfl | ⟨init, c, rfl⟩
  · exact iff_of_true endsLine_nil rfl
  · rw [List.concat_eq_append, lineStarts_append_singleton]
    by_cases hc : c = '\n'
    · subst hc
      refine iff_of_true (endsLine_append_feed init []) ?_
      rw [if_pos rfl, Array.back?_push, size_append]
      rfl
    · refine iff_of_false (fun h => hc (h c (by simp))) fun h => ?_
      rw [if_neg hc] at h
      have hle := le_size_of_mem_lineStarts _ (Array.mem_of_back? h)
      have hpos := c.utf8Size_pos
      simp only [size_append, size_cons, size_nil] at hle
      omega

end Text

namespace SourceMap

/-! ## Looking Up -/

theorem trimReturns_eq (line : List Char) : trimReturns line = line.rdropWhile (· == '\r') := rfl

theorem trimReturns_append_return (line : List Char) :
    trimReturns (line ++ ['\r']) = trimReturns line :=
  List.rdropWhile_concat_pos _ _ _ rfl

/-- Carriage returns are taken off a line that ends with one, and off no other. -/
theorem trimReturns_eq_self_iff (line : List Char) :
    trimReturns line = line ↔ line.getLast? ≠ some '\r' := by
  rw [trimReturns_eq, List.rdropWhile_eq_self_iff]
  rcases List.eq_nil_or_concat line with rfl | ⟨init, c, rfl⟩ <;> simp

/-- A line is cut out between its start and the start of the next one, or the end. -/
theorem line?_of_start {m : SourceMap} {number start stop : Nat} {line : List Char}
    (hnumber : 0 < number) (hstart : m.lineStarts[number - 1]? = some start)
    (hstop : m.lineStarts[number]? = some (stop + 1) ∨
      m.lineStarts[number]? = none ∧ stop = Text.size m.text)
    (hline : Text.slice? start stop m.text = some line) :
    m.line? number = some (trimReturns line) := by
  rw [line?, if_neg hnumber.ne', hstart]
  rcases hstop with hnext | ⟨hnext, rfl⟩
  · simp only [hnext, Option.bind_eq_bind, Option.bind_some, Nat.add_sub_cancel, hline]
    rfl
  · simp only [hnext, Option.bind_eq_bind, Option.bind_some, hline]
    rfl

/-- The line behind a beginning that ends one is looked up to its line feed. -/
theorem line?_of_endsLine {front : List Char} (h : Text.EndsLine front) (rest : List Char) :
    (ofText (front ++ rest)).line? (Text.lineStarts front).size =
      some (trimReturns (Text.firstLine rest)) := by
  have hpos := Text.size_lineStarts_pos front
  obtain ⟨later, hstarts, -⟩ := Text.lineStarts_append front rest
  have hstart : (Text.lineStarts (front ++ rest))[(Text.lineStarts front).size - 1]? =
      some (Text.size front) := by
    rw [hstarts, Array.getElem?_append_left (Nat.sub_one_lt hpos.ne'), ← Array.back?_eq_getElem?]
    exact Text.endsLine_iff.1 h
  -- A line goes up to its line feed, and the last one up to the end of the text.
  rcases Text.cases_firstLine rest with hlast | ⟨line, behind, rfl, hline⟩
  · have hnone : (Text.lineStarts (front ++ rest))[(Text.lineStarts front).size]? = none := by
      rw [Text.lineStarts_append_of_notMem front hlast]
      exact Array.getElem?_eq_none (Nat.le_refl _)
    have hslice := Text.slice?_size_append front rest []
    rw [List.append_nil, ← Text.size_append] at hslice
    rw [Text.firstLine_of_notMem hlast]
    exact line?_of_start hpos hstart (.inr ⟨hnone, rfl⟩) hslice
  · obtain ⟨beyond, hbeyond, -⟩ := Text.lineStarts_append (front ++ (line ++ ['\n'])) behind
    have htext : front ++ (line ++ ['\n']) ++ behind = front ++ (line ++ '\n' :: behind) := by simp
    have hnext : (Text.lineStarts (front ++ (line ++ '\n' :: behind)))[(Text.lineStarts front).size]? =
        some (Text.size (front ++ line) + 1) := by
      rw [← htext, hbeyond, Text.lineStarts_append_feed front hline,
        Array.getElem?_append_left (by simp), Array.getElem?_push_size]
    have hslice := Text.slice?_size_append front line ('\n' :: behind)
    rw [← Text.size_append] at hslice
    rw [Text.firstLine_append_feed hline]
    exact line?_of_start hpos hstart (.inl hnext) hslice

/-- There is no line behind the last one. -/
theorem line?_of_lineCount_lt {m : SourceMap} {number : Nat} (h : m.lineCount < number) :
    m.line? number = none := by
  have hnone : m.lineStarts[number - 1]? = none :=
    Array.getElem?_eq_none (Nat.le_sub_one_of_lt h)
  rw [line?, if_neg (Nat.ne_of_gt (Nat.zero_lt_of_lt h)), hnone]
  rfl

section Lines

variable {front cs : List Char} {lines : List Text.Line}

/-- A line feed takes one line to the front. -/
theorem line?_append_feed {line : List Char} (hline : '\n' ∉ line) (rest : List Char) (n : Nat) :
    (ofText (front ++ (line ++ '\n' :: rest))).line? ((Text.lineStarts front).size + (n + 1)) =
      (ofText (front ++ (line ++ ['\n']) ++ rest)).line?
        ((Text.lineStarts (front ++ (line ++ ['\n']))).size + n) := by
  have htext : front ++ (line ++ '\n' :: rest) = front ++ (line ++ ['\n']) ++ rest := by simp
  have hnumber : (Text.lineStarts front).size + (n + 1) =
      (Text.lineStarts (front ++ (line ++ ['\n']))).size + n := by
    rw [Text.lineStarts_append_feed front hline, Array.size_push]
    omega
  rw [htext, hnumber]

/-- Behind a beginning that ends a line, lines are looked up by their place among the others. -/
theorem line?_of_lines (h : Text.Lines cs lines) (hfront : Text.EndsLine front) (n : Nat) :
    (ofText (front ++ cs)).line? ((Text.lineStarts front).size + n) =
      lines[n]?.map fun line => trimReturns line.body := by
  -- The first line is read here, and all others where the next one starts.
  induction h generalizing front n with
  | @last body hbody =>
    cases n with
    | zero =>
      have hline := line?_of_endsLine hfront body
      rwa [Text.firstLine_of_notMem hbody] at hline
    | succ n =>
      refine line?_of_lineCount_lt ?_
      show (Text.lineStarts (front ++ body)).size < _
      rw [Text.lineStarts_append_of_notMem front hbody]
      omega
  | @feed body rest lines hbody _ _ ih =>
    cases n with
    | zero =>
      have hline := line?_of_endsLine hfront (body ++ '\n' :: rest)
      rwa [Text.firstLine_append_feed hbody] at hline
    | succ n =>
      rw [line?_append_feed hbody]
      exact ih (Text.endsLine_append_feed front body) n
  | @returnFeed body rest lines hbody _ ih =>
    have hreturn : '\n' ∉ body ++ ['\r'] := by simpa using hbody
    have hcs : body ++ '\r' :: '\n' :: rest = body ++ ['\r'] ++ '\n' :: rest := by simp
    rw [hcs]
    cases n with
    | zero =>
      have hline := line?_of_endsLine hfront (body ++ ['\r'] ++ '\n' :: rest)
      rwa [Text.firstLine_append_feed hreturn, trimReturns_append_return] at hline
    | succ n =>
      rw [line?_append_feed hreturn]
      exact ih (Text.endsLine_append_feed front _) n

theorem size_lineStarts_of_lines (h : Text.Lines cs lines) (front : List Char) :
    (Text.lineStarts (front ++ cs)).size + 1 = (Text.lineStarts front).size + lines.length := by
  induction h generalizing front with
  | last hbody => rw [Text.lineStarts_append_of_notMem front hbody]; rfl
  | @feed body rest lines hbody _ _ ih =>
    have hrest := ih (front ++ (body ++ ['\n']))
    rw [Text.lineStarts_append_feed front hbody, Array.size_push] at hrest
    simp only [List.append_assoc, List.singleton_append, List.length_cons] at hrest ⊢
    omega
  | @returnFeed body rest lines hbody _ ih =>
    have hreturn : '\n' ∉ body ++ ['\r'] := by simpa using hbody
    have hrest := ih (front ++ (body ++ ['\r'] ++ ['\n']))
    rw [Text.lineStarts_append_feed front hreturn, Array.size_push] at hrest
    simp only [List.append_assoc, List.cons_append, List.nil_append, List.length_cons] at hrest ⊢
    omega

end Lines

/-! ## Joining -/

theorem trimReturns_prefix_self (line : List Char) : trimReturns line <+: line :=
  List.rdropWhile_prefix _ line

theorem length_flatMap_trimReturns_le (lines : List Text.Line) :
    (lines.flatMap fun line => trimReturns line.body ++ line.ending).length ≤
      (lines.flatMap Text.Line.text).length := by
  induction lines with
  | nil => exact Nat.le_refl _
  | cons line lines ih =>
    have hline := (trimReturns_prefix_self line.body).length_le
    simp only [List.flatMap_cons, List.length_append, Text.Line.text] at ih ⊢
    omega

/-- Joined lines are shorter than the text as soon as one of them is. -/
theorem flatMap_trimReturns_iff (lines : List Text.Line) :
    (lines.flatMap fun line => trimReturns line.body ++ line.ending) = lines.flatMap Text.Line.text ↔
      ∀ line ∈ lines, trimReturns line.body = line.body := by
  induction lines with
  | nil => simp
  | cons line lines ih =>
    rw [List.forall_mem_cons]
    constructor
    · intro hjoined
      have hline : trimReturns line.body = line.body := by
        have hlength := congrArg List.length hjoined
        have hrest := length_flatMap_trimReturns_le lines
        simp only [List.flatMap_cons, List.length_append, Text.Line.text] at hlength hrest
        exact (trimReturns_prefix_self line.body).eq_of_length_le (by omega)
      rw [List.flatMap_cons, List.flatMap_cons, hline] at hjoined
      exact ⟨hline, ih.1 (List.append_cancel_left hjoined)⟩
    · rintro ⟨hline, hrest⟩
      rw [List.flatMap_cons, List.flatMap_cons, hline, ih.2 hrest]
      rfl

/-- Each line of a text is given up to its terminator exactly if no carriage return stands
there that is not part of it; any that do are left out. -/
theorem line?_iff_of_lines (source : List Char) :
    ∃ lines, (∀ lines', Text.Lines source lines' ↔ lines' = lines) ∧
      lines.length = (ofText source).lineCount ∧
      (∀ number, (ofText source).line? number =
        if number = 0 then none
        else lines[number - 1]?.map fun line => trimReturns line.body) ∧
      (∀ n, (ofText source).line? (n + 1) = lines[n]?.map Text.Line.body ↔
        ∀ line ∈ lines[n]?, line.body.getLast? ≠ some '\r') ∧
      ((lines.mapIdx fun n line => ((ofText source).line? (n + 1)).getD [] ++ line.ending).flatten =
          source ↔
        ∀ line ∈ lines, line.body.getLast? ≠ some '\r') := by
  obtain ⟨lines, hlines⟩ := Text.exists_lines source
  have hline : ∀ n, (ofText source).line? (n + 1) =
      lines[n]?.map fun line => trimReturns line.body := by
    intro n
    rw [Nat.add_comm]
    exact line?_of_lines hlines Text.endsLine_nil n
  refine ⟨lines, fun lines' => ⟨hlines.unique, fun h => h ▸ hlines⟩, ?_, ?_, ?_, ?_⟩
  · have hsize := size_lineStarts_of_lines hlines []
    exact (Nat.add_right_cancel (hsize.trans (Nat.add_comm 1 _))).symm
  · rintro (_ | n)
    · rfl
    · rw [if_neg (Nat.succ_ne_zero n)]
      exact hline n
  · intro n
    rw [hline]
    cases lines[n]? with
    | none => simp
    | some line => simp [trimReturns_eq_self_iff]
  -- Joined with their endings, the lines are those of the text without what was trimmed.
  · have hjoined : (lines.mapIdx fun n line =>
        ((ofText source).line? (n + 1)).getD [] ++ line.ending).flatten =
        lines.flatMap fun line => trimReturns line.body ++ line.ending := by
      rw [List.flatMap_def]
      refine congrArg List.flatten (List.ext_getElem (by simp) fun n _ h => ?_)
      simp [hline, List.getElem?_eq_getElem (List.length_map _ ▸ h)]
    have htrim := flatMap_trimReturns_iff lines
    rw [hlines.flatMap_text] at htrim
    simpa only [hjoined, ← trimReturns_eq_self_iff] using htrim

/-- A carriage return in front of a terminator that has one already is left out, and so is
one where the text ends without a terminator. -/
theorem line?_ne_of_return :
    Text.Lines "a\r\r\nb\r".toList [⟨['a', '\r'], ['\r', '\n']⟩, ⟨['b', '\r'], []⟩] ∧
    (ofText "a\r\r\nb\r".toList).line? 1 = some ['a'] ∧
    (ofText "a\r\r\nb\r".toList).line? 2 = some ['b'] := by
  have htext : "a\r\r\nb\r".toList = ['a', '\r'] ++ '\r' :: '\n' :: ['b', '\r'] := rfl
  refine ⟨?_, by decide, by decide⟩
  rw [htext]
  exact .returnFeed (by decide) (.last (by decide))

end SourceMap

end PipeQuery
