-- SUMMARY: What a recognizer takes is the longest beginning that it takes as a whole, except where a block comment opens another one with characters that may close it too.
import PipeQuery.Proofs.Recognizer.CutComment
import PipeQuery.Proofs.Recognizer.CutLiteral
import PipeQuery.Proofs.Text.Offsets
import PipeQuery.Rule.Table

/-! # Longest Matches

All recognizers but one settle a match from the left, so that text behind it changes nothing
and less text leaves no more. Block comments look ahead: the end of a comment inside is chosen
once, and is not chosen again if nothing closes the outer comment behind it.

It takes three things for a block comment to miss its longest beginning: a level that is never
closed, opening characters of which the star also closes, and closing characters behind what is
taken. The three together are no proof that it does. -/

namespace PipeQuery

namespace Recognizer

/-- The longest beginning of a text that a recognizer accepts as a whole. -/
structure LongestAccepted (r : Recognizer) (input p : List Char) : Prop where
  begins : p <+: input
  accepted : r.matchSize p = Text.size p
  longest : ∀ q, q <+: input → r.matchSize q = Text.size q → q.length ≤ p.length

/-- Whether no comment in the text hinges on what follows it. -/
def Clear (r : Recognizer) (input : List Char) : Prop :=
  r = .blockComment → ∀ cs, input = '/' :: '*' :: cs → Comment.Clear cs

variable {r : Recognizer} {input p : List Char}

theorem longestTaken (h : r.Clear input) :
    Scan.LongestTaken r.matchLength input (input.take (r.matchLength input)) := by
  by_cases hr : r = .blockComment
  · subst hr
    exact Scan.longestTaken_blockComment (h rfl)
  · exact (steady hr).longestTaken r.matchLength_le_length input

/-- A text is accepted as a whole exactly if all of its bytes are. -/
theorem matchSize_eq_size_iff : r.matchSize p = Text.size p ↔ r.matchLength p = p.length := by
  have hle := r.matchLength_le_length p
  constructor
  · intro h
    have hall : p <+: p.take (r.matchLength p) :=
      Text.prefix_of_size_le (List.prefix_refl p) (List.take_prefix _ _) (Nat.le_of_eq h.symm)
    have hlength := hall.length_le
    rw [List.length_take] at hlength
    omega
  · intro h
    rw [matchSize, h, List.take_length]

theorem longestAccepted
    (h : Scan.LongestTaken r.matchLength input (input.take (r.matchLength input))) :
    r.LongestAccepted input (input.take (r.matchLength input)) where
  begins := h.begins
  accepted := matchSize_eq_size_iff.2 h.whole
  longest q hq hall := h.longest q hq (matchSize_eq_size_iff.1 hall)

/-- An accepted beginning has no more bytes than the longest one. -/
theorem LongestAccepted.size_le (h : r.LongestAccepted input p) {q more : List Char}
    (hinput : input = q ++ more) (hall : r.matchSize q = Text.size q) :
    Text.size q ≤ Text.size p := by
  have hq : q <+: input := ⟨more, hinput.symm⟩
  exact Text.size_le_of_prefix
    (List.prefix_of_prefix_length_le hq h.begins (h.longest q hq hall))

/-- A recognizer takes the longest beginning that it accepts as a whole, and no less of a text
that begins with an accepted one. -/
theorem matchSize_longest (r : Recognizer) (input : List Char) (h : r.Clear input) :
    (∃ p, r.LongestAccepted input p ∧ r.matchSize input = Text.size p) ∧
    ∀ p more, input = p ++ more → r.matchSize p = Text.size p →
      Text.size p ≤ r.matchSize input := by
  have hlongest := longestAccepted (longestTaken h)
  exact ⟨⟨_, hlongest, rfl⟩, fun p more hinput hall => hlongest.size_le hinput hall⟩

/-- A comment inside that is not closed is plain text, and the comment around it goes up to
the last closing characters. -/
theorem matchSize_longest_of_open_comment :
    blockComment.Clear "/* a /* b */ c".toList ∧
    (∃ p, blockComment.LongestAccepted "/* a /* b */ c".toList p ∧
      blockComment.matchSize "/* a /* b */ c".toList = Text.size p) ∧
    ∀ p more, "/* a /* b */ c".toList = p ++ more → blockComment.matchSize p = Text.size p →
      Text.size p ≤ blockComment.matchSize "/* a /* b */ c".toList := by
  have hclear : Comment.Clear " a /* b */ c".toList := by decide
  have h : blockComment.Clear "/* a /* b */ c".toList := by
    intro _ cs hcs
    rwa [← (List.cons.inj (List.cons.inj hcs).2).2]
  exact ⟨h, matchSize_longest blockComment _ h⟩

/-- A comment that misses its longest beginning leaves a level open, opens a comment with
characters of which the star also closes, and has closing characters behind what it takes. -/
theorem of_not_longestAccepted {cs : List Char}
    (h : ¬blockComment.LongestAccepted ('/' :: '*' :: cs)
      (('/' :: '*' :: cs).take (blockComment.matchLength ('/' :: '*' :: cs)))) :
    Comment.behind? 1 cs = none ∧ Comment.overlap <:+: cs ∧
      Comment.closing <:+:
        ('/' :: '*' :: cs).drop (blockComment.matchLength ('/' :: '*' :: cs)) := by
  have hclear : ¬Comment.Clear cs := by
    intro hclear
    refine h (longestAccepted (longestTaken fun _ ds hds => ?_))
    rwa [← (List.cons.inj (List.cons.inj hds).2).2]
  obtain ⟨hopen, hoverlap⟩ := not_or.1 hclear
  refine ⟨not_not.1 hopen, not_not.1 hoverlap, ?_⟩
  by_contra hbehind
  exact h (longestAccepted (Scan.longestTaken_of_none_behind hbehind))

/-- All three are found in the first text, and yet no longer beginning of it is accepted. In
the second one nothing closes behind what is taken. -/
example :
    (Comment.behind? 1 "/*/*/".toList = none ∧ Comment.overlap <:+: "/*/*/".toList ∧
      blockComment.matchLength "/*/*/*/".toList = 5 ∧
      ∀ n ≤ 7, blockComment.matchLength ("/*/*/*/".toList.take n) = n → n ≤ 5) ∧
    (¬Comment.Clear "/*/".toList ∧ blockComment.matchLength "/*/*/".toList = 5) := by
  decide

/-- Two more characters make an accepted comment of nine shrink to five: with them, the comment
inside is closed farther behind, where nothing closes the outer one any more. In a longer text
of this kind, not even what is taken is accepted when it stands alone. -/
theorem not_matchSize_longest_of_overlap :
    (∃ rule ∈ Mode.default.rules, rule.recognizer = blockComment) ∧
    blockComment.matchSize "/*/*/*/*/".toList = 9 ∧
    blockComment.matchSize "/*/*/*/*/*/".toList = 5 ∧
    (¬∃ p, blockComment.LongestAccepted "/*/*/*/*/*/".toList p ∧
      blockComment.matchSize "/*/*/*/*/*/".toList = Text.size p) ∧
    blockComment.matchSize "/*/*/*/*/*/*/*/".toList = 13 ∧
    blockComment.matchSize ("/*/*/*/*/*/*/*/".toList.take 13) ≠ 13 := by
  have hwhole : blockComment.matchSize "/*/*/*/*/".toList = 9 := by decide
  have htaken : blockComment.matchSize "/*/*/*/*/*/".toList = 5 := by decide
  refine ⟨by decide, hwhole, htaken, ?_, by decide, by decide⟩
  rintro ⟨p, hp, hsize⟩
  have hlonger : 9 ≤ p.length := hp.longest "/*/*/*/*/".toList (by decide) hwhole
  have hshorter := Text.length_le_size p
  omega

end Recognizer

end PipeQuery
