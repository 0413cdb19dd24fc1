-- SUMMARY: Fixed texts, line comments, strings, numbers and parameters take no more of a text that is cut, nor does any recognizer but the one for block comments.
import PipeQuery.Proofs.Recognizer.Cut
import PipeQuery.Proofs.Recognizer.OpenNumber
import PipeQuery.Proofs.Recognizer.OpenString
import PipeQuery.Proofs.Recognizer.Trivia

/-! # Cut Literals

A literal that is cut loses what may only stand as a whole: a fixed text, a string without
its closing mark, an exponent without its digits. What is left before the cut is taken as
before. -/

namespace PipeQuery

namespace Scan

/-! ## Fixed Texts and Line Comments -/

theorem settled_fixed (same : Char → Char → Bool) (text : List Char) :
    Settled (fixed same text) := by
  intro cs
  refine ⟨fixed_le_length same text cs, fun hpos ds => ?_⟩
  have hall : shared same text cs = text.length := by
    by_contra hsome
    rw [fixed, if_neg hsome] at hpos
    exact absurd hpos (Nat.lt_irrefl 0)
  have hfixed : fixed same text cs = text.length := if_pos hall
  have hle : text.length ≤ cs.length := hall ▸ shared_le_right same text cs
  have hkept := min_shared_le_shared_append same text (cs.take text.length)
    (cs.drop text.length) ds
  rw [List.take_append_drop, hall, List.length_take, Nat.min_eq_left hle, Nat.min_self] at hkept
  rw [hfixed, fixed, if_pos (Nat.le_antisymm (shared_le_left same text _) hkept)]

theorem steady_lineComment : Steady lineComment := by
  intro cs k
  by_cases hopen : ['/', '/'] <+: cs
  · obtain ⟨cs, rfl⟩ := hopen
    rcases k with _ | _ | k
    · exact ⟨Nat.zero_le _, fun h => by simp [lineComment] at h⟩
    · refine ⟨Nat.zero_le _, fun h => ?_⟩
      simp only [List.cons_append, List.nil_append, lineComment] at h
      omega
    · have hrest := leading_take (fun c => !CharClass.isLineEnd c) cs k
      simp only [List.cons_append, List.nil_append, List.take_succ_cons, lineComment, hrest]
      omega
  · have hnone : lineComment cs = 0 :=
      Nat.eq_zero_of_not_pos fun h => hopen (lineComment_pos_iff.1 h)
    have hcut : lineComment (cs.take k) = 0 := Nat.eq_zero_of_not_pos fun h =>
      hopen ((lineComment_pos_iff.1 h).trans (List.take_prefix k cs))
    rw [hnone, hcut]
    exact ⟨Nat.le_refl _, fun _ => rfl⟩

/-! ## Strings -/

theorem settled_simpleString : Settled simpleString := by
  intro cs
  refine ⟨simpleString_le_length cs, fun hpos ds => ?_⟩
  obtain ⟨cs, rfl⟩ := begins_of_simpleString_pos hpos
  rw [simpleString_quote] at hpos ⊢
  split at hpos
  case isFalse => exact absurd hpos (Nat.lt_irrefl 0)
  case isTrue hclosed =>
    obtain ⟨rest, hrest⟩ := List.head?_eq_some_iff.1 hclosed
    have hstop : pieces stringPiece ('"' :: ds) = 0 := pieces_of_zero rfl
    have htext : ('"' :: cs).take (pieces stringPiece cs + 2) ++ ds =
        '"' :: (cs.take (pieces stringPiece cs) ++ '"' :: ds) := by
      rw [List.take_succ_cons, List.take_add, hrest, List.cons_append, List.append_assoc]
      rfl
    rw [if_pos hclosed, htext, simpleString_take_append, hstop, List.drop_zero, List.head?_cons,
      if_pos rfl, Nat.add_zero]

/-- The three marks on either side of a string. -/
def marks : List Char := ['"', '"', '"']

theorem not_isLineEnd_of_mem_marks : ∀ c ∈ marks, CharClass.isLineEnd c = false := by
  simp [marks, CharClass.isLineEnd]

/-- Marks behind a body are the first ones if none are completed by two of them. -/
theorem beforeTriple_eq_some_iff {cs : List Char} {count n : Nat} :
    beforeTriple count cs = some n ↔
      ∃ body behind, cs = body ++ (marks ++ behind) ∧ n = count + body.length ∧
        ¬marks <:+: body ++ ['"', '"'] := by
  induction cs generalizing count with
  | nil =>
    refine iff_of_false nofun ?_
    rintro ⟨body, behind, hcs, -⟩
    exact absurd hcs (by simp [marks])
  | cons c cs ih =>
    rw [beforeTriple]
    split
    case isTrue hmarks =>
      have hmarks : marks <+: c :: cs := List.isPrefixOf_iff_prefix.1 hmarks
      constructor
      · intro hn
        obtain ⟨behind, hbehind⟩ := hmarks
        exact ⟨[], behind, hbehind.symm, (Option.some.inj hn).symm, by decide⟩
      · rintro ⟨body, behind, hcs, rfl, hfirst⟩
        cases body with
        | nil => rfl
        | cons d body =>
          -- Otherwise the marks at the beginning would lie in the body and two marks.
          have hbegin : d :: body ++ ['"', '"'] <+: c :: cs := ⟨'"' :: behind, by simp [hcs, marks]⟩
          have hinside := List.prefix_of_prefix_length_le hmarks hbegin (by simp [marks])
          exact absurd hinside.isInfix hfirst
    case isFalse hmarks =>
      have hmarks : ¬marks <+: c :: cs := fun h => hmarks (List.isPrefixOf_iff_prefix.2 h)
      rw [ih]
      constructor
      · rintro ⟨body, behind, rfl, rfl, hfirst⟩
        refine ⟨c :: body, behind, rfl, by rw [List.length_cons]; omega, ?_⟩
        rw [List.cons_append, List.infix_cons_iff, not_or]
        refine ⟨fun h => hmarks (h.trans ?_), hfirst⟩
        exact ⟨'"' :: behind, by simp [marks]⟩
      · rintro ⟨body, behind, hcs, rfl, hfirst⟩
        cases body with
        | nil => exact absurd ⟨behind, hcs.symm⟩ hmarks
        | cons d body =>
          obtain ⟨rfl, rfl⟩ := List.cons.inj hcs
          rw [List.cons_append, List.infix_cons_iff, not_or] at hfirst
          exact ⟨body, behind, rfl, by rw [List.length_cons]; omega, hfirst.2⟩

/-- Whether a text may stand between tripled marks: it is on one line, and the marks that
close it are the first three in a row. -/
def IsTripleBody (body : List Char) : Prop :=
  (∀ c ∈ body, CharClass.isLineEnd c = false) ∧ ¬marks <:+: body ++ ['"', '"']

theorem tripleString_append {body : List Char} (h : IsTripleBody body) (behind : List Char) :
    tripleString (marks ++ (body ++ (marks ++ behind))) =
      body.length + 6 + min 2 (leading (· == '"') behind) := by
  have hbody : ∀ c ∈ body, (!CharClass.isLineEnd c) = true := fun c hc => by simp [h.1 c hc]
  have hmarks : ∀ c ∈ marks, (!CharClass.isLineEnd c) = true := fun c hc => by
    simp [not_isLineEnd_of_mem_marks c hc]
  have hline : (body ++ (marks ++ behind)).takeWhile (fun c => !CharClass.isLineEnd c) =
      body ++ (marks ++ behind.takeWhile fun c => !CharClass.isLineEnd c) := by
    rw [List.takeWhile_append_of_pos hbody, List.takeWhile_append_of_pos hmarks]
  have hfirst : beforeTriple 0 (body ++ (marks ++ behind.takeWhile fun c => !CharClass.isLineEnd c)) =
      some body.length :=
    beforeTriple_eq_some_iff.2 ⟨body, _, rfl, (Nat.zero_add _).symm, h.2⟩
  have hdrop : (body ++ (marks ++ behind)).drop (body.length + 3) = behind := by
    rw [List.drop_length_add_append]
    rfl
  have hstring := tripleString_marks (body ++ (marks ++ behind))
  rw [hline, hfirst, Option.elim_some, hdrop] at hstring
  exact hstring

theorem exists_of_tripleString_pos {cs : List Char} (h : 0 < tripleString cs) :
    ∃ body behind, cs = marks ++ (body ++ (marks ++ behind)) ∧ IsTripleBody body := by
  obtain ⟨cs, rfl⟩ := begins_of_tripleString_pos h
  have hline := List.takeWhile_append_dropWhile (p := fun c => !CharClass.isLineEnd c) (l := cs)
  have hclass : ∀ c ∈ cs.takeWhile fun c => !CharClass.isLineEnd c, CharClass.isLineEnd c = false :=
    fun c hc => by simpa using List.mem_takeWhile_imp hc
  rw [tripleString_marks] at h
  cases hfirst : beforeTriple 0 (cs.takeWhile fun c => !CharClass.isLineEnd c) with
  | none =>
    rw [hfirst] at h
    exact absurd h (Nat.lt_irrefl 0)
  | some n =>
    obtain ⟨body, behind, hbody, -, hmarks⟩ := beforeTriple_eq_some_iff.1 hfirst
    rw [hbody] at hline hclass
    refine ⟨body, behind ++ cs.dropWhile fun c => !CharClass.isLineEnd c, ?_, ?_, hmarks⟩
    · rw [List.append_assoc, List.append_assoc] at hline
      exact congrArg (marks ++ ·) hline.symm
    · exact fun c hc => hclass c (List.mem_append_left _ hc)

theorem steady_tripleString : Steady tripleString := by
  refine .of_append tripleString_le_length fun p s => ?_
  rcases Nat.eq_zero_or_pos (tripleString p) with hzero | hpos
  · refine ⟨hzero ▸ Nat.zero_le _, fun hle => ?_⟩
    -- A string that ends before the cut is there without what follows.
    by_contra hne
    obtain ⟨body, behind, hps, hbody⟩ := exists_of_tripleString_pos (by omega : 0 < tripleString (p ++ s))
    rw [hps, tripleString_append hbody] at hle
    have hbegin : marks ++ (body ++ marks) <+: p ++ s := ⟨behind, by simp [hps]⟩
    have hlength : (marks ++ (body ++ marks)).length ≤ p.length := by
      simp only [marks, List.length_append, List.length_cons, List.length_nil]
      omega
    obtain ⟨behind, rfl⟩ := List.prefix_of_prefix_length_le hbegin (List.prefix_append p s) hlength
    rw [List.append_assoc, List.append_assoc, tripleString_append hbody] at hzero
    omega
  · obtain ⟨body, behind, rfl, hbody⟩ := exists_of_tripleString_pos hpos
    have hmore := tripleString_append hbody (behind ++ s)
    have hbehind := leading_append (· == '"') behind s
    have hsplit : marks ++ (body ++ (marks ++ behind)) ++ s =
        marks ++ (body ++ (marks ++ (behind ++ s))) := by
      simp only [List.append_assoc]
    rw [hsplit, hmore, tripleString_append hbody]
    simp only [marks, List.length_append, List.length_cons, List.length_nil]
    omega

theorem steady_quotedString : Steady quotedString :=
  settled_simpleString.steady.max steady_tripleString

/-! ## Numbers and Parameters -/

theorem digits_take (cs : List Char) (k : Nat) : digits (cs.take k) = min k (digits cs) :=
  leading_take _ cs k

theorem drop_digits_take (cs : List Char) (k : Nat) :
    (cs.take k).drop (digits (cs.take k)) = (cs.drop (digits cs)).take (k - digits cs) :=
  drop_leading_take _ cs k

theorem steady_exponent : Steady exponent := by
  intro cs k
  match cs, k with
  | [], k => simp
  | c :: cs, 0 => exact ⟨Nat.zero_le _, fun h => (Nat.le_zero.1 h).symm⟩
  | [c], k + 1 => simp
  -- A mark without digits is no exponent.
  | c :: d :: cs, 1 =>
    have hnone : exponent [c] = 0 := by
      simp [exponent, sign, digits]
    rw [List.take_succ_cons, List.take_zero, hnone]
    refine ⟨Nat.zero_le _, fun h => ?_⟩
    by_contra hne
    have hpos := exponent_pos_iff.1 (Nat.pos_of_ne_zero (Ne.symm hne))
    rw [exponent, if_pos hpos.1] at h
    dsimp only at h
    split_ifs at h <;> omega
  | c :: d :: cs, k + 2 =>
    rw [List.take_succ_cons, List.take_succ_cons, exponent, exponent, sign_cons, sign_cons]
    by_cases hsign : d = '+' ∨ d = '-'
    · have hdigits := leading_take Char.isDigit cs k
      simp only [hsign, if_true, List.drop_succ_cons, List.drop_zero, digits, hdigits]
      split_ifs <;> omega
    · have hdigits := leading_take Char.isDigit (d :: cs) (k + 1)
      rw [List.take_succ_cons] at hdigits
      simp only [hsign, if_false, List.drop_zero, digits, hdigits]
      split_ifs <;> omega

theorem steady_decimal : Steady decimal := by
  intro cs k
  rw [decimal, decimal, drop_digits_take, digits_take]
  generalize digits cs = whole
  generalize cs.drop whole = rest
  cases rest with
  | nil =>
    simp [exponent]
  | cons c rest =>
    -- A point may be cut away from the digits on either side, an exponent from its mantissa.
    by_cases hc : c = '.'
    · subst hc
      cases hj : k - whole with
      | zero =>
        simp only [List.take_zero, exponent]
        split_ifs <;> omega
      | succ j =>
        have hexp := steady_exponent (rest.drop (digits rest)) (j - digits rest)
        simp only [List.take_succ_cons]
        rw [drop_digits_take, digits_take]
        by_cases hnone : whole = 0 ∧ digits rest = 0
        · rw [if_pos hnone, if_pos (by omega)]
          exact ⟨Nat.le_refl _, fun _ => rfl⟩
        · rw [if_neg hnone]
          split <;> omega
    · have hexp := steady_exponent (c :: rest) (k - whole)
      cases hj : k - whole with
      | zero =>
        rw [hj] at hexp
        simp only [List.take_zero, List.cons.injEq, hc, false_and, imp_self, implies_true]
        simp only [List.take_zero] at hexp
        split_ifs <;> omega
      | succ j =>
        rw [hj] at hexp
        simp only [List.take_succ_cons] at hexp
        simp only [List.take_succ_cons, List.cons.injEq, hc, false_and, imp_self, implies_true]
        split_ifs <;> omega

theorem two_le_of_parameter_pos {cs : List Char} (h : 0 < parameter cs) : 2 ≤ parameter cs := by
  unfold parameter at h ⊢
  split at h
  case h_1 c cs => split_ifs at h ⊢ <;> omega
  case h_2 => exact absurd h (Nat.lt_irrefl 0)

theorem steady_parameter : Steady parameter := by
  intro cs k
  match cs, k with
  | [], k => simp
  | _ :: _, 0 => exact ⟨Nat.zero_le _, fun h => (Nat.le_zero.1 h).symm⟩
  | [c], k + 1 => simp
  | c :: d :: cs, 1 =>
    have hnone : parameter [c] = 0 := Nat.eq_zero_of_not_pos fun h =>
      absurd (two_le_of_parameter_pos h) (Nat.not_le.2 (Nat.lt_succ_of_le (parameter_le_length [c])))
    have hsome : 0 < parameter (c :: d :: cs) → 2 ≤ parameter (c :: d :: cs) :=
      two_le_of_parameter_pos
    rw [List.take_succ_cons, List.take_zero, hnone]
    omega
  | c :: d :: cs, k + 2 =>
    have hword := leading_take CharClass.isWord cs k
    have hdigits := leading_take Char.isDigit cs k
    by_cases hmark : c = '?'
    · subst hmark
      simp only [List.take_succ_cons, parameter, digits, hword, hdigits]
      split_ifs <;> omega
    · simp [parameter, hmark]

end Scan

/-! ## Recognizers -/

/-- All recognizers but one settle what they take from the left. -/
theorem Recognizer.steady {r : Recognizer} (h : r ≠ .blockComment) : Scan.Steady r.matchLength := by
  cases r with
  | literal text => exact (Scan.settled_fixed _ text).steady
  | keyword word => exact (Scan.settled_fixed _ word).steady
  | lineComment => exact Scan.steady_lineComment
  | blockComment => exact absurd rfl h
  | whitespace | unknownCommand | integer | setting => exact Scan.steady_leading _
  | unquotedSource =>
    exact Scan.settled_sourcePiece.steady.pieces fun cs => (Scan.settled_sourcePiece cs).1
  | quotedString => exact Scan.steady_quotedString
  | decimal => exact Scan.steady_decimal
  | parameter => exact Scan.steady_parameter
  | unquotedIdentifier => exact Scan.steady_word _ _
  | quotedIdentifier => exact Scan.steady_quotedIdentifier
  | idPattern => exact Scan.steady_patternPiece.pieces Scan.patternPiece_le_length
  | policyName => exact Scan.steady_policyName

end PipeQuery
