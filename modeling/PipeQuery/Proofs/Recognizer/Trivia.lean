-- SUMMARY: What blanks and comments take of a text that begins with them, and how little any other recognizer takes of it.
import PipeQuery.Proofs.Recognizer.Bracket
import PipeQuery.Proofs.Recognizer.Comment
import PipeQuery.Rule.Basic

/-! # Trivia

Blanks and comments are told from all else by one or two characters. Another recognizer takes
nothing of a blank, and of the two characters that open a comment the first at most. So trivia
is the longest match wherever it begins. -/

namespace PipeQuery

open CharClass

/-! ## Scanners -/

namespace Scan

theorem lineComment_pos_iff {cs : List Char} : 0 < lineComment cs ↔ ['/', '/'] <+: cs := by
  unfold lineComment
  split
  case h_1 cs =>
    have hpos : 0 < 2 + leading (fun c => !isLineEnd c) cs := by omega
    exact iff_of_true hpos ⟨cs, rfl⟩
  case h_2 hother =>
    refine iff_of_false (Nat.lt_irrefl 0) ?_
    rintro ⟨ds, rfl⟩
    exact hother ds rfl

theorem blockComment_pos_iff {cs : List Char} :
    0 < blockComment cs ↔ ['/', '*'] <+: cs ∧ Comment.closing <:+: cs.drop 2 := by
  unfold blockComment
  split
  case h_1 cs =>
    have hclosed : Comment.bodyLength? cs = none ↔ ¬Comment.closing <:+: cs := by
      rw [Comment.bodyLength?_eq, Option.map_eq_none_iff, Comment.remains?_eq_none_iff]
    cases hbody : Comment.bodyLength? cs with
    | none =>
      refine iff_of_false (Nat.lt_irrefl 0) ?_
      rintro ⟨-, hclosing⟩
      exact hclosed.1 hbody hclosing
    | some body =>
      have hclosing : Comment.closing <:+: cs := by
        by_contra hopen
        rw [hclosed.2 hopen] at hbody
        exact absurd hbody nofun
      exact iff_of_true (Nat.succ_pos _) ⟨⟨cs, rfl⟩, hclosing⟩
  case h_2 hother =>
    refine iff_of_false (Nat.lt_irrefl 0) ?_
    rintro ⟨⟨ds, rfl⟩, -⟩
    exact hother ds rfl

/-- A line comment goes up to the end of the line. -/
theorem take_lineComment {cs : List Char} (h : ['/', '/'] <+: cs) :
    cs.take (lineComment cs) = cs.takeWhile fun c => !isLineEnd c := by
  obtain ⟨ds, hcs⟩ := h
  obtain rfl : cs = '/' :: '/' :: ds := hcs.symm
  have hlength : lineComment ('/' :: '/' :: ds) = leading (fun c => !isLineEnd c) ds + 2 :=
    Nat.add_comm 2 _
  rw [hlength, List.take_succ_cons, List.take_succ_cons, take_leading]
  rfl

/-- A block comment goes from its opening characters up to closing ones. -/
theorem take_blockComment {cs : List Char} (h : 0 < blockComment cs) :
    ∃ body, cs.take (blockComment cs) = '/' :: '*' :: (body ++ Comment.closing) := by
  obtain ⟨⟨ds, hcs⟩, hclosing⟩ := blockComment_pos_iff.1 h
  obtain rfl : cs = '/' :: '*' :: ds := hcs.symm
  have hends : Comment.remains? ds ≠ none := by
    intro hnone
    exact Comment.remains?_eq_none_iff.1 hnone hclosing
  obtain ⟨k, hk⟩ := Option.ne_none_iff_exists'.1 hends
  obtain ⟨body, behind, rfl, rfl⟩ := Comment.exists_body_of_remains? hk
  have hlength : blockComment ('/' :: '*' :: (body ++ (Comment.closing ++ behind))) =
      (body ++ Comment.closing).length + 2 := by
    rw [blockComment, Comment.bodyLength?_eq, hk, Option.map_some]
    simp only [List.length_append]
    omega
  refine ⟨body, ?_⟩
  rw [hlength, List.take_succ_cons, List.take_succ_cons, ← List.append_assoc, List.take_left]

theorem two_le_lineComment {cs : List Char} (h : 0 < lineComment cs) : 2 ≤ lineComment cs := by
  obtain ⟨ds, rfl⟩ := lineComment_pos_iff.1 h
  exact Nat.le_add_right 2 _

theorem two_le_blockComment {cs : List Char} (h : 0 < blockComment cs) : 2 ≤ blockComment cs := by
  obtain ⟨body, htake⟩ := take_blockComment h
  have hle := List.length_take_le (blockComment cs) cs
  rw [htake, List.length_cons, List.length_cons] at hle
  omega

end Scan

/-! ## Beginnings -/

namespace Trivia

def all : List Trivia :=
  [.lineComment, .blockComment, .whitespace]

theorem mem_all (kind : Trivia) : kind ∈ all := by
  cases kind <;> decide

/-- Whether a text begins with trivia of a kind. -/
def Begins : Trivia → List Char → Prop
  | .lineComment, cs => ['/', '/'] <+: cs
  | .blockComment, cs => ['/', '*'] <+: cs ∧ Comment.closing <:+: cs.drop 2
  | .whitespace, cs => ∃ c ∈ cs.head?, isBlank c

/-- Whether `text` is all that trivia of a kind may take of a text: the rest of the line, a
comment up to closing characters, or every blank. -/
def Takes : Trivia → List Char → List Char → Prop
  | .lineComment, cs, text => text = cs.takeWhile fun c => !isLineEnd c
  | .blockComment, cs, text => text <+: cs ∧ ∃ body, text = '/' :: '*' :: (body ++ Comment.closing)
  | .whitespace, cs, text => text = cs.takeWhile isBlank

variable {kind : Trivia} {cs : List Char}

theorem begins_iff : kind.Begins cs ↔ 0 < (Rule.triviaRecognizer kind).matchLength cs := by
  cases kind with
  | lineComment => exact Scan.lineComment_pos_iff.symm
  | blockComment => exact Scan.blockComment_pos_iff.symm
  | whitespace =>
    cases cs with
    | nil => exact iff_of_false (fun ⟨_, hc, _⟩ => absurd hc nofun) (Nat.lt_irrefl 0)
    | cons c cs =>
      rw [Rule.triviaRecognizer, Recognizer.matchLength, Scan.leading_pos_iff]
      exact ⟨fun ⟨d, hd, hblank⟩ => Option.some.inj hd ▸ hblank, fun hblank => ⟨c, rfl, hblank⟩⟩

instance : Decidable (kind.Begins cs) :=
  decidable_of_iff _ begins_iff.symm

/-- The star that opens a comment does not close it. -/
example : ¬Trivia.blockComment.Begins ['/', '*', '/'] ∧
    Trivia.blockComment.Begins ['/', '*', '*', '/'] := by
  decide

theorem Begins.ne_nil (h : kind.Begins cs) : cs ≠ [] := by
  intro hnil
  have hpos := begins_iff.1 h
  have hle := (Rule.triviaRecognizer kind).matchLength_le_length cs
  rw [hnil] at hpos hle
  exact absurd hpos (Nat.not_lt_of_ge hle)

theorem takes_take (h : kind.Begins cs) :
    kind.Takes cs (cs.take ((Rule.triviaRecognizer kind).matchLength cs)) := by
  cases kind with
  | lineComment => exact Scan.take_lineComment h
  | blockComment => exact ⟨List.take_prefix _ _, Scan.take_blockComment (begins_iff.1 h)⟩
  | whitespace => exact Scan.take_leading isBlank cs

end Trivia

/-! ## Other Recognizers -/

section Fixed

variable {same : Char → Char → Bool} {text : List Char}

theorem Scan.fixed_of_head {d : Char} (h : ∀ c ∈ text.head?, same c d = false) (cs : List Char) :
    fixed same text (d :: cs) = 0 := by
  cases text with
  | nil => simp [fixed]
  | cons c text => simp [fixed, shared_cons_cons, h c rfl]

/-- A fixed text that does not go on with a character ends before it. -/
theorem Scan.fixed_le_one {d : Char} (h : ∀ c ∈ text.tail, same c d = false) (c : Char)
    (cs : List Char) : fixed same text (c :: d :: cs) ≤ 1 := by
  match text, h with
  | [], _ => simp [fixed]
  | [k], _ =>
    unfold fixed
    split <;> simp
  | k :: l :: text, h =>
    have hl : same l d = false := h l List.mem_cons_self
    have hshared : shared same (k :: l :: text) (c :: d :: cs) ≤ 1 := by
      rw [shared_cons_cons, shared_cons_cons, hl]
      split <;> simp
    unfold fixed
    split
    case isTrue hall =>
      rw [hall] at hshared
      exact absurd hshared (by simp)
    case isFalse => exact Nat.zero_le _

end Fixed

namespace Recognizer

/-- Whether no fixed text begins with a character. -/
def opensBeside (k : Char) : Recognizer → Bool
  | .literal text => text.head?.all (· != k)
  | .keyword word => word.head?.all fun c => !sameLetter c k
  | _ => true

/-- Whether no fixed text is blank at its beginning, or goes on as a comment does. -/
def sparesTrivia (r : Recognizer) : Bool :=
  r.avoids '/' && r.avoids '*' && [' ', '\t', '\r', '\n'].all (r.opensBeside ·)

/-- Blanks are taken by the recognizer of blanks only. -/
theorem matchLength_blank {r : Recognizer} {k : Char} (hk : isBlank k) (h : r.opensBeside k)
    (hother : r ≠ .whitespace) (cs : List Char) : r.matchLength (k :: cs) = 0 := by
  cases r with
  | literal text =>
    exact Scan.fixed_of_head (by simpa [opensBeside, Option.all_eq_true] using h) cs
  | keyword word =>
    exact Scan.fixed_of_head (by simpa [opensBeside, Option.all_eq_true] using h) cs
  | whitespace => exact absurd rfl hother
  | _ =>
    have hblank : k = ' ' ∨ k = '\t' ∨ k = '\r' ∨ k = '\n' := by simpa [isBlank, or_assoc] using hk
    rcases hblank with rfl | rfl | rfl | rfl <;> rfl

/-- Of the characters that open a comment the other recognizers take the first at most. -/
theorem matchLength_slash_le_one {r : Recognizer} {d : Char} (hd : d = '/' ∨ d = '*')
    (h : r.avoids d) (hline : d = '/' → r ≠ .lineComment) (hblock : d = '*' → r ≠ .blockComment)
    (cs : List Char) : r.matchLength ('/' :: d :: cs) ≤ 1 := by
  cases r with
  | literal text => exact Scan.fixed_le_one (by simpa [avoids] using h) '/' cs
  | keyword word => exact Scan.fixed_le_one (by simpa [avoids] using h) '/' cs
  | lineComment =>
    obtain rfl : d = '*' := hd.resolve_left fun hslash => hline hslash rfl
    exact Nat.zero_le 1
  | blockComment =>
    obtain rfl : d = '/' := hd.resolve_right fun hstar => hblock hstar rfl
    exact Nat.zero_le 1
  | _ => rcases hd with rfl | rfl <;> exact Nat.le_of_lt_succ (Nat.succ_pos 1)

end Recognizer

/-- Trivia takes more of what it begins than any other recognizer does. -/
theorem Trivia.matchLength_lt {kind : Trivia} {cs : List Char} (h : kind.Begins cs)
    {r : Recognizer} (hspares : r.sparesTrivia) (hother : r ≠ Rule.triviaRecognizer kind) :
    r.matchLength cs < (Rule.triviaRecognizer kind).matchLength cs := by
  have hpos := begins_iff.1 h
  obtain ⟨⟨hslash, hstar⟩, hblanks⟩ : (r.avoids '/' ∧ r.avoids '*') ∧
      ∀ k ∈ [' ', '\t', '\r', '\n'], r.opensBeside k := by
    simpa [Recognizer.sparesTrivia] using hspares
  cases kind with
  | lineComment =>
    have htwo : 2 ≤ (Rule.triviaRecognizer .lineComment).matchLength cs :=
      Scan.two_le_lineComment hpos
    obtain ⟨ds, rfl⟩ := h
    have hone := Recognizer.matchLength_slash_le_one (.inl rfl) hslash (fun _ => hother)
      (fun heq => absurd heq (by decide)) ds
    exact Nat.lt_of_le_of_lt hone htwo
  | blockComment =>
    have htwo : 2 ≤ (Rule.triviaRecognizer .blockComment).matchLength cs :=
      Scan.two_le_blockComment hpos
    obtain ⟨⟨ds, rfl⟩, -⟩ := h
    have hone := Recognizer.matchLength_slash_le_one (.inr rfl) hstar
      (fun heq => absurd heq (by decide)) (fun _ => hother) ds
    exact Nat.lt_of_le_of_lt hone htwo
  | whitespace =>
    obtain ⟨c, hc, hblank⟩ := h
    obtain ⟨ds, rfl⟩ := List.head?_eq_some_iff.1 hc
    have hmem : c ∈ [' ', '\t', '\r', '\n'] := by simpa [isBlank, or_assoc] using hblank
    rw [Recognizer.matchLength_blank hblank (hblanks c hmem) hother]
    exact hpos

end PipeQuery
