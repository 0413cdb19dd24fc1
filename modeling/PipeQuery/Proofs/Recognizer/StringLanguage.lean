-- SUMMARY: A string in triple marks is taken with up to two marks behind it, and where there is none, a string in single marks.
import PipeQuery.Proofs.Recognizer.CutLiteral
import PipeQuery.Proofs.Recognizer.Language

/-! # Strings

Both forms of strings begin with the same mark, and three marks begin an empty string with
single marks too. A string that triple marks close is always the longer one. -/

open scoped Computability

namespace PipeQuery

theorem Text.size_replicate (n : Nat) (c : Char) :
    Text.size (List.replicate n c) = n * c.utf8Size := by
  induction n with
  | zero => exact (Nat.zero_mul _).symm
  | succ n ih => rw [List.replicate_succ, Text.size_cons, ih, Nat.succ_mul, Nat.add_comm]

namespace Grammar

/-! ## Languages -/

/-- A backslash and what it may stand before. -/
def escape : Language Char :=
  exactly ['\\'] * oneOf ['t', 'n', 'r', 'T', 'N', 'R', '"', '\\']

/-- A plain character of a string, or an escape. -/
def stringPart : Language Char :=
  noneOf ['\r', '\n', '"', '\\'] + escape

def simpleString : Language Char :=
  exactly ['"'] * (stringPart∗ * exactly ['"'])

def tripleString : Language Char :=
  {w | ∃ body, Scan.IsTripleBody body ∧ w = Scan.marks ++ (body ++ Scan.marks)}

variable {w : List Char}

theorem mem_escape : w ∈ escape ↔ ∃ c, Scan.isEscaped c = true ∧ w = ['\\', c] := by
  have hlisted : ∀ c, c ∈ ['t', 'n', 'r', 'T', 'N', 'R', '"', '\\'] ↔ Scan.isEscaped c = true := by
    intro c
    simp [Scan.isEscaped, or_assoc]
  rw [escape, mem_exactly_mul]
  constructor
  · rintro ⟨_, ⟨c, hc, rfl⟩, rfl⟩
    exact ⟨c, (hlisted c).1 (of_decide_eq_true hc), rfl⟩
  · rintro ⟨c, hc, rfl⟩
    exact ⟨[c], mem_one.2 (decide_eq_true ((hlisted c).2 hc)), rfl⟩

theorem mem_simpleString :
    w ∈ simpleString ↔ ∃ body ∈ stringPart∗, w = '"' :: (body ++ ['"']) := by
  rw [simpleString, mem_exactly_mul]
  constructor
  · rintro ⟨_, ⟨body, hbody, _, rfl, rfl⟩, rfl⟩
    exact ⟨body, hbody, rfl⟩
  · rintro ⟨body, hbody, rfl⟩
    exact ⟨_, Language.append_mem_mul hbody rfl, rfl⟩

/-- A string between single marks is made of parts, and no part but an escape has a backslash. -/
theorem exists_parts_of_mem_simpleString (h : w ∈ simpleString) :
    ∃ parts : List (List Char), w = '"' :: (parts.flatten ++ ['"']) ∧
      ∀ part ∈ parts, '\\' ∈ part → part ∈ escape := by
  obtain ⟨body, hbody, rfl⟩ := mem_simpleString.1 h
  obtain ⟨parts, rfl, hparts⟩ := Language.mem_kstar.1 hbody
  refine ⟨parts, rfl, fun part hpart hbackslash => ?_⟩
  refine (hparts part hpart).resolve_left ?_
  rintro ⟨c, hc, rfl⟩
  rw [← List.mem_singleton.1 hbackslash] at hc
  exact absurd hc (by decide)

theorem not_isLineEnd_of_mem_stringPart (h : w ∈ stringPart) :
    ∀ c ∈ w, CharClass.isLineEnd c = false := by
  rcases h with ⟨c, hc, rfl⟩ | hescape
  · have hplain : c ∉ ['\r', '\n', '"', '\\'] := of_decide_eq_true hc
    simp only [List.mem_cons, not_or] at hplain
    simp [CharClass.isLineEnd, hplain]
  · obtain ⟨_, ⟨c, hc, rfl⟩, rfl⟩ := mem_exactly_mul.1 hescape
    have hescaped : ∀ d ∈ ['t', 'n', 'r', 'T', 'N', 'R', '"', '\\'], CharClass.isLineEnd d = false := by
      simp [CharClass.isLineEnd]
    exact List.forall_mem_cons.2
      ⟨rfl, List.forall_mem_singleton.2 (hescaped c (of_decide_eq_true hc))⟩

theorem not_isLineEnd_of_mem_simpleString (h : w ∈ simpleString) :
    ∀ c ∈ w, CharClass.isLineEnd c = false := by
  obtain ⟨body, hbody, rfl⟩ := mem_simpleString.1 h
  obtain ⟨parts, rfl, hparts⟩ := Language.mem_kstar.1 hbody
  refine List.forall_mem_cons.2 ⟨rfl, List.forall_mem_append.2 ⟨?_, List.forall_mem_singleton.2 rfl⟩⟩
  intro c hc
  obtain ⟨part, hpart, hcpart⟩ := List.mem_flatten.1 hc
  exact not_isLineEnd_of_mem_stringPart (hparts part hpart) c hcpart

theorem not_isLineEnd_of_mem_tripleString (h : w ∈ tripleString) :
    ∀ c ∈ w, CharClass.isLineEnd c = false := by
  obtain ⟨body, hbody, rfl⟩ := h
  have hmarks := Scan.not_isLineEnd_of_mem_marks
  exact List.forall_mem_append.2 ⟨hmarks, List.forall_mem_append.2 ⟨hbody.1, hmarks⟩⟩

end Grammar

namespace Scan

open Grammar

theorem reads_stringPiece : Reads stringPiece stringPart where
  le_length cs := (settled_stringPiece cs).1
  steady := settled_stringPiece.steady
  mem_iff w := by
    have hclass : ∀ c, c ∉ ['\r', '\n', '"', '\\'] ↔ ¬(c = '"' ∨ c = '\\' ∨ CharClass.isLineEnd c) := by
      intro c
      simp [CharClass.isLineEnd]
      tauto
    rw [stringPart, Language.mem_add, mem_escape]
    constructor
    · rintro (⟨c, hc, rfl⟩ | ⟨c, hc, rfl⟩)
      · have hplain := (hclass c).1 (of_decide_eq_true hc)
        have hne : c ≠ '\\' := fun h => hplain (.inr (.inl h))
        refine ⟨List.cons_ne_nil _ _, ?_⟩
        rw [stringPiece_of_ne hne, if_neg fun h => hplain (h.imp_right .inr)]
        rfl
      · exact ⟨List.cons_ne_nil _ _, if_pos hc⟩
    -- A piece of two characters is an escape, and one of a single character is plain.
    · rintro ⟨hne, hall⟩
      unfold stringPiece at hall
      split at hall
      case h_1 c cs =>
        split_ifs at hall with hc
        obtain rfl : cs = [] := List.eq_nil_of_length_eq_zero (by simpa using hall.symm)
        exact .inr ⟨c, hc, rfl⟩
      case h_2 c cs _ =>
        split_ifs at hall with hplain
        obtain rfl : cs = [] := List.eq_nil_of_length_eq_zero (by simpa using hall.symm)
        exact .inl ⟨c, decide_eq_true ((hclass c).2 hplain), rfl⟩
      case h_3 => exact absurd rfl hne

theorem simpleString_of_body {body : List Char} (h : body ∈ stringPart∗) (behind : List Char) :
    Scan.simpleString ('"' :: (body ++ '"' :: behind)) = body.length + 2 := by
  have hbody := (reads_stringPiece.pieces_of_settled settled_stringPiece).mem_star.1 h
  have hstop : pieces stringPiece ('"' :: behind) = 0 := pieces_of_zero rfl
  have hclosed := simpleString_take_append body ('"' :: behind)
  rwa [hbody, List.take_length, hstop, List.drop_zero, List.head?_cons, if_pos rfl] at hclosed

theorem exists_of_simpleString_pos {cs : List Char} (h : 0 < Scan.simpleString cs) :
    ∃ body behind, cs = '"' :: (body ++ '"' :: behind) ∧ body ∈ stringPart∗ := by
  obtain ⟨cs, rfl⟩ := begins_of_simpleString_pos h
  rw [simpleString_quote] at h
  split at h
  case isTrue hclosed =>
    have hreads := reads_stringPiece.pieces_of_settled settled_stringPiece
    obtain ⟨behind, hbehind⟩ := List.head?_eq_some_iff.1 hclosed
    refine ⟨cs.take (pieces stringPiece cs), behind, ?_, ?_⟩
    · rw [← hbehind, List.take_append_drop]
    · rw [hreads.mem_star, hreads.steady.take_self, settled_stringPiece.length_take_pieces]
  case isFalse => exact absurd h (Nat.lt_irrefl 0)

theorem tripleString_of_mem {p : List Char} (h : p ∈ Grammar.tripleString) (behind : List Char) :
    Scan.tripleString (p ++ behind) = p.length + min 2 (leading (· == '"') behind) := by
  obtain ⟨body, hbody, rfl⟩ := h
  rw [List.append_assoc, List.append_assoc, tripleString_append hbody]
  simp only [marks, List.length_append, List.length_cons, List.length_nil]
  omega

/-- Triple marks begin with an empty string, so that theirs is the longer one. -/
theorem quotedString_of_triple {p : List Char} (h : p ∈ Grammar.tripleString)
    (behind : List Char) :
    Scan.quotedString (p ++ behind) = p.length + min 2 (leading (· == '"') behind) := by
  have htriple := tripleString_of_mem h behind
  obtain ⟨body, -, rfl⟩ := h
  have hempty : Scan.simpleString (marks ++ (body ++ marks) ++ behind) = 2 := rfl
  rw [quotedString, hempty, htriple]
  simp only [marks, List.length_append, List.length_cons, List.length_nil]
  omega

theorem take_min_leading (k : Nat) (d : Char) (cs : List Char) :
    cs.take (min k (leading (· == d) cs)) = List.replicate (min k (leading (· == d) cs)) d := by
  refine List.eq_replicate_iff.2 ⟨?_, fun c hc => ?_⟩
  · rw [List.length_take]
    have hle := leading_le_length (· == d) cs
    omega
  · have hmem : c ∈ cs.take (leading (· == d) cs) :=
      List.mem_of_mem_take (by rwa [List.take_take])
    simpa using forall_mem_take_leading _ _ c hmem

/-- What is taken of a string between triple marks. -/
theorem take_quotedString_of_triple {p : List Char} (h : p ∈ Grammar.tripleString)
    (behind : List Char) :
    (p ++ behind).take (Scan.quotedString (p ++ behind)) =
      p ++ List.replicate (min 2 (leading (· == '"') behind)) '"' := by
  rw [quotedString_of_triple h, List.take_length_add_append, take_min_leading]

theorem exists_of_tripleString {cs : List Char} (h : 0 < Scan.tripleString cs) :
    ∃ p ∈ Grammar.tripleString, p <+: cs := by
  obtain ⟨body, behind, rfl, hbody⟩ := exists_of_tripleString_pos h
  exact ⟨_, ⟨body, hbody, rfl⟩, behind, by simp only [List.append_assoc]⟩

/-- Without triple marks that close, what single marks close is taken. -/
theorem quotedString_of_simple {cs p : List Char} (h : ∀ q ∈ Grammar.tripleString, ¬q <+: cs)
    (hp : p ∈ Grammar.simpleString) (hbegins : p <+: cs) : Scan.quotedString cs = p.length := by
  have hnone : Scan.tripleString cs = 0 := by
    refine Nat.eq_zero_of_not_pos fun hpos => ?_
    obtain ⟨q, hq, hqcs⟩ := exists_of_tripleString hpos
    exact h q hq hqcs
  obtain ⟨body, hbody, rfl⟩ := mem_simpleString.1 hp
  obtain ⟨behind, rfl⟩ := hbegins
  have hsimple := simpleString_of_body hbody behind
  rw [quotedString, hnone, Nat.max_zero]
  simpa using hsimple

theorem quotedString_pos_iff {cs : List Char} :
    0 < Scan.quotedString cs ↔
      (∃ p ∈ Grammar.simpleString, p <+: cs) ∨ ∃ p ∈ Grammar.tripleString, p <+: cs := by
  constructor
  · intro h
    rcases lt_max_iff.1 h with hsimple | htriple
    · obtain ⟨body, behind, rfl, hbody⟩ := exists_of_simpleString_pos hsimple
      exact .inl ⟨_, mem_simpleString.2 ⟨body, hbody, rfl⟩, behind, by simp⟩
    · exact .inr (exists_of_tripleString htriple)
  · rintro (⟨p, hp, behind, rfl⟩ | ⟨p, hp, behind, rfl⟩)
    · obtain ⟨body, hbody, rfl⟩ := mem_simpleString.1 hp
      have hsimple := simpleString_of_body hbody behind
      refine Nat.lt_of_lt_of_le ?_ (Nat.le_max_left _ _)
      simp [hsimple]
    · rw [quotedString_of_triple hp]
      obtain ⟨body, -, rfl⟩ := hp
      exact Nat.add_pos_left (Nat.succ_pos _) _

theorem not_isLineEnd_take_quotedString (cs : List Char) :
    ∀ c ∈ cs.take (Scan.quotedString cs), CharClass.isLineEnd c = false := by
  by_cases htriple : ∃ p ∈ Grammar.tripleString, p <+: cs
  · obtain ⟨p, hp, behind, rfl⟩ := htriple
    rw [take_quotedString_of_triple hp]
    refine List.forall_mem_append.2 ⟨not_isLineEnd_of_mem_tripleString hp, fun c hc => ?_⟩
    rw [List.eq_of_mem_replicate hc]
    rfl
  by_cases hsimple : ∃ p ∈ Grammar.simpleString, p <+: cs
  · obtain ⟨p, hp, hbegins⟩ := hsimple
    rw [quotedString_of_simple (fun q hq hqcs => htriple ⟨q, hq, hqcs⟩) hp hbegins,
      ← List.prefix_iff_eq_take.1 hbegins]
    exact not_isLineEnd_of_mem_simpleString hp
  · have hnone : Scan.quotedString cs = 0 :=
      Nat.eq_zero_of_not_pos fun hpos => (quotedString_pos_iff.1 hpos).elim hsimple htriple
    rw [hnone]
    nofun

end Scan

namespace Recognizer

open Grammar

/-- A string is taken where one of either form begins. A string between triple marks is taken
with up to two marks behind it; where there is none, a string between single marks is taken,
whose backslashes all belong to escapes. What is taken is on one line. -/
theorem matchSize_quotedString (input : List Char) :
    (0 < quotedString.matchSize input ↔
      (∃ p ∈ simpleString, p <+: input) ∨ ∃ p ∈ tripleString, p <+: input) ∧
    (∀ p ∈ tripleString, ∀ behind, input = p ++ behind →
      quotedString.matchSize input = Text.size p + min 2 (behind.takeWhile (· == '"')).length) ∧
    ((∀ p ∈ tripleString, ¬p <+: input) → ∀ p ∈ simpleString, p <+: input →
      quotedString.matchSize input = Text.size p ∧
      input.take (quotedString.matchLength input) = p ∧
      ∃ parts : List (List Char), p = '"' :: (parts.flatten ++ ['"']) ∧
        ∀ part ∈ parts, '\\' ∈ part → part ∈ escape) ∧
    ∀ c ∈ input.take (quotedString.matchLength input), c ≠ '\r' ∧ c ≠ '\n' := by
  refine ⟨matchSize_pos_iff.trans Scan.quotedString_pos_iff, ?_, ?_, ?_⟩
  · rintro p hp behind rfl
    have htake := congrArg Text.size (Scan.take_quotedString_of_triple hp behind)
    rw [Text.size_append, Text.size_replicate] at htake
    exact htake.trans (congrArg _ (Nat.mul_one _))
  · intro htriple p hp hbegins
    have hall : quotedString.matchLength input = p.length :=
      Scan.quotedString_of_simple htriple hp hbegins
    have htaken : input.take (quotedString.matchLength input) = p := by
      rw [hall, ← List.prefix_iff_eq_take.1 hbegins]
    exact ⟨congrArg Text.size htaken, htaken, exists_parts_of_mem_simpleString hp⟩
  · intro c hc
    have hend := Scan.not_isLineEnd_take_quotedString input c hc
    simpa [CharClass.isLineEnd] using hend

example : quotedString.matchSize "\"\"\"a\"\"\"\"\"\"".toList = 9 := by decide

example : quotedString.matchSize "\"\"\"a\"\n\"\"\"".toList = 2 := by decide

end Recognizer

end PipeQuery
