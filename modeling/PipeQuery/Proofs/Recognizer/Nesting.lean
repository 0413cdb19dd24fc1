-- SUMMARY: A block comment ends where counting its opening and closing characters comes to nothing; where that never happens, it ends at some closing characters if there are any.
import PipeQuery.Proofs.Recognizer.Trivia

/-! # Nested Comments

Where comments are nested properly, the table of comment ends answers what counting levels
from the left answers. The count is given up at the end of the text, though, while the table
takes opening characters without a match for plain text. -/

namespace PipeQuery

namespace Comment

/-! ## Counting Levels -/

/-- What is left of a text behind the place where `depth` levels are closed. Closing characters
close a level and opening characters open one, and all else is passed. A character of several
bytes is passed as a whole, since no byte of it is a star or a slash. -/
def behind? : Nat → List Char → Option (List Char)
  | 0, cs => some cs
  | _ + 1, [] => none
  | depth + 1, '*' :: '/' :: cs => behind? depth cs
  | depth + 1, '/' :: '*' :: cs => behind? (depth + 2) cs
  | depth + 1, _ :: cs => behind? (depth + 1) cs

variable {depth : Nat} {cs rest : List Char}

@[simp] theorem behind?_zero (cs : List Char) : behind? 0 cs = some cs := by
  rw [behind?]

theorem behind?_plain {c : Char} (hclose : ¬(c = '*' ∧ cs.head? = some '/'))
    (hopen : ¬(c = '/' ∧ cs.head? = some '*')) :
    behind? (depth + 1) (c :: cs) = behind? (depth + 1) cs := by
  rw [behind?]
  · rintro ds rfl rfl
    exact hclose ⟨rfl, rfl⟩
  · rintro ds rfl rfl
    exact hopen ⟨rfl, rfl⟩

/-- The place is settled by the text before it. -/
theorem exists_closed_of_behind? (h : behind? depth cs = some rest) :
    ∃ closed, cs = closed ++ rest ∧ ∀ more, behind? depth (closed ++ more) = some more := by
  fun_induction behind? depth cs with
  | case1 cs => exact ⟨[], Option.some.inj h, behind?_zero⟩
  | case2 => exact absurd h nofun
  | case3 depth cs ih =>
    obtain ⟨closed, rfl, hclosed⟩ := ih h
    exact ⟨'*' :: '/' :: closed, rfl, hclosed⟩
  | case4 depth cs ih =>
    obtain ⟨closed, rfl, hclosed⟩ := ih h
    exact ⟨'/' :: '*' :: closed, rfl, hclosed⟩
  | case5 depth c cs hclose hopen ih =>
    obtain ⟨closed, rfl, hclosed⟩ := ih h
    -- A level is open, so what closes it begins before whatever follows.
    obtain ⟨d, ds, rfl⟩ : ∃ d ds, closed = d :: ds := by
      refine List.exists_cons_of_ne_nil ?_
      rintro rfl
      exact absurd (hclosed []) nofun
    refine ⟨c :: d :: ds, rfl, fun more => ?_⟩
    rw [← hclosed more]
    refine behind?_plain ?_ ?_
    · rintro ⟨rfl, hd⟩
      exact hclose _ rfl (congrArg (· :: (ds ++ rest)) (Option.some.inj hd))
    · rintro ⟨rfl, hd⟩
      exact hopen _ rfl (congrArg (· :: (ds ++ rest)) (Option.some.inj hd))

/-- Where several levels are closed, the innermost body ends first, and the others are closed
behind it. -/
theorem remains?_of_behind? (h : behind? (depth + 1) cs = some rest) :
    ∃ left, left <:+ cs ∧ remains? cs = some left.length ∧ behind? depth left = some rest := by
  induction hn : cs.length using Nat.strongRecOn generalizing cs depth with
  | ind n ih =>
    subst hn
    rcases cases_of_text cs with rfl | ⟨ds, rfl⟩ | ⟨ds, rfl⟩ | ⟨c, ds, rfl, hclose, hopen⟩
    · exact absurd h nofun
    · exact ⟨ds, ⟨['*', '/'], rfl⟩, remains?_close ds, h⟩
    · -- The comment inside is closed, and the body ends in what is left behind it.
      have hshorter : ds.length < ('/' :: '*' :: ds).length := by
        simp only [List.length_cons]
        omega
      have h : behind? (depth + 2) ds = some rest := h
      obtain ⟨inner, hinner, hremains, hbehind⟩ := ih _ hshorter h rfl
      obtain ⟨left, hleft, hremains', hbehind'⟩ :=
        ih _ (Nat.lt_of_le_of_lt hinner.length_le hshorter) hbehind rfl
      refine ⟨left, hleft.trans (hinner.trans ⟨['/', '*'], rfl⟩), ?_, hbehind'⟩
      rw [remains?_open, hremains, Option.bind_some, ← List.suffix_iff_eq_drop.1 hinner, hremains']
      rfl
    · rw [behind?_plain hclose hopen] at h
      obtain ⟨left, hleft, hremains, hbehind⟩ := ih _ (Nat.lt_succ_self _) h rfl
      exact ⟨left, hleft.trans (List.suffix_cons c ds), by rw [remains?_plain hclose hopen, hremains],
        hbehind⟩

end Comment

/-! ## Match Lengths -/

open Recognizer

theorem Scan.blockComment_of_behind? {cs rest : List Char} (h : Comment.behind? 1 cs = some rest) :
    Scan.blockComment ('/' :: '*' :: cs) = cs.length - rest.length + 2 := by
  obtain ⟨left, -, hremains, hbehind⟩ := Comment.remains?_of_behind? h
  obtain rfl : left = rest := by simpa using hbehind
  rw [Scan.blockComment, Comment.bodyLength?_eq, hremains]
  rfl

/-- A text that begins with the opening characters of a comment is a comment up to the place
where all levels are closed, whatever stands behind that place. If there is none, it has a
comment at its beginning exactly if it has closing characters behind the opening ones, and the
comment ends with such. Any other text has none. -/
theorem matchSize_blockComment (input : List Char) :
    (∀ cs rest, input = '/' :: '*' :: cs → Comment.behind? 1 cs = some rest →
      ∃ comment, input = comment ++ rest ∧
        ∀ more, blockComment.matchSize (comment ++ more) = Text.size comment) ∧
    (∀ cs, input = '/' :: '*' :: cs → Comment.behind? 1 cs = none →
      (0 < blockComment.matchSize input ↔ Comment.closing <:+: cs) ∧
      (0 < blockComment.matchSize input → ∃ body,
        input.take (blockComment.matchLength input) = '/' :: '*' :: (body ++ Comment.closing))) ∧
    (¬['/', '*'] <+: input → blockComment.matchSize input = 0) := by
  -- A comment that is closed, one that is left open, and a text that begins with neither.
  refine ⟨?_, ?_, ?_⟩
  · rintro cs rest rfl hrest
    obtain ⟨closed, rfl, hclosed⟩ := Comment.exists_closed_of_behind? hrest
    refine ⟨'/' :: '*' :: closed, rfl, fun more => ?_⟩
    have hlength : blockComment.matchLength ('/' :: '*' :: (closed ++ more)) = closed.length + 2 := by
      rw [matchLength, Scan.blockComment_of_behind? (hclosed more), List.length_append,
        Nat.add_sub_cancel]
    rw [matchSize, List.cons_append, List.cons_append, hlength, List.take_succ_cons,
      List.take_succ_cons, List.take_left]
  · rintro cs rfl -
    rw [matchSize_pos_iff, matchLength]
    exact ⟨Scan.blockComment_pos_iff.trans (and_iff_right ⟨cs, rfl⟩), Scan.take_blockComment⟩
  · intro hopen
    refine Nat.eq_zero_of_not_pos fun h => hopen ?_
    exact (Scan.blockComment_pos_iff.1 (matchSize_pos_iff.1 h)).1

/-- A comment inside that is not closed keeps the levels from being closed, and is plain text. -/
example : Comment.behind? 1 " /* */".toList = none ∧
    blockComment.matchSize "/* /* */".toList = 8 := by
  decide

end PipeQuery
