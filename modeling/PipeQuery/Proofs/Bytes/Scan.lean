-- SUMMARY: The scanners that go over indices read nothing out of range, and take as many bytes as the scanners of lists take of the bytes.
import PipeQuery.Proofs.Bytes.Comment
import PipeQuery.Proofs.Bytes.Encoding
import PipeQuery.Proofs.Recognizer.Length

/-! # Index Scanners

This holds of any bytes, also of those that are no encoded text. A scanner without a loop only
asks for bytes that may be missing; a loop reads in range because it tests for the end first. -/

namespace PipeQuery

namespace Bytes

open CharClass Scan

variable {bs : Bytes} {i : Nat} {cs : List Char}

theorem drop_succ_of_drop {c : Char} (h : bs.chars.drop i = c :: cs) :
    bs.chars.drop (i + 1) = cs := by
  rw [← List.tail_drop, h, List.tail_cons]

theorem get?_zero (bs : Bytes) : bs.get? 0 = bs.chars.head? := by
  rw [get?_eq, List.drop_zero]

/-! ## Sources and Policies -/

theorem sourceFrom_turn (h : bs.Ahead i cs) :
    bs.sourceFrom i =
      if sourcePiece cs = 0 then .ok i else bs.sourceFrom (i + sourcePiece cs) := by
  cases cs with
  | nil =>
    rw [sourceFrom, dif_neg h.eq_size.not_lt]
    rfl
  | cons c cs =>
    conv_lhs => rw [sourceFrom]
    rw [dif_pos h.lt_size, h.read, Checked.ok_bind, h.get?_succ]
    by_cases hc : c = '/'
    · subst hc
      cases cs with
      | nil => rfl
      | cons d cs => by_cases hd : d = '*' ∨ d = '/' <;> simp [isSource, hd]
    · rw [sourcePiece_of_ne hc]
      cases hclass : isSource c <;> simp [hc]

theorem unquotedSource_eq (bs : Bytes) :
    bs.unquotedSource = .ok (Scan.unquotedSource bs.chars) := by
  rw [Bytes.unquotedSource,
    (Ahead.start bs).loop (fun cs => (settled_sourcePiece cs).1) sourceFrom_turn, Nat.zero_add]
  rfl

theorem policyName_eq (bs : Bytes) : bs.policyName = Scan.policyName bs.chars := by
  unfold Bytes.policyName Scan.policyName
  simp only [run_eq, get?_eq, List.drop_zero]
  generalize leading isPolicy bs.chars = head
  cases hrest : bs.chars.drop head with
  | nil => by_cases h : head = 0 <;> simp [h]
  | cons c rest =>
    rw [drop_succ_of_drop hrest]
    by_cases hc : c = ':'
    · subst hc
      by_cases hhead : head = 0 <;> by_cases htail : leading isPolicy rest = 0 <;>
        simp [hhead, htail, Nat.pos_iff_ne_zero]
    · by_cases hhead : head = 0 <;> simp [hhead, hc]

/-! ## Strings -/

theorem simpleStringFrom_turn (h : bs.Ahead i cs) :
    bs.simpleStringFrom i =
      if stringPiece cs = 0 then .ok (if cs.head? = some '"' then i + 1 else 0)
      else bs.simpleStringFrom (i + stringPiece cs) := by
  cases cs with
  | nil =>
    rw [simpleStringFrom, dif_neg h.eq_size.not_lt]
    rfl
  | cons c cs =>
    conv_lhs => rw [simpleStringFrom]
    rw [dif_pos h.lt_size, h.read, Checked.ok_bind, h.get?_succ]
    by_cases hc : c = '\\'
    · subst hc
      cases cs with
      | nil => rfl
      | cons d cs => cases hd : isEscaped d <;> simp [hd]
    · rw [stringPiece_of_ne hc]
      by_cases hmark : c = '"'
      · simp [hmark]
      · cases hline : isLineEnd c <;> simp [hc, hmark]

theorem simpleString_eq (bs : Bytes) : bs.simpleString = .ok (Scan.simpleString bs.chars) := by
  rcases bs.first_cases '"' with ⟨cs, hcs, hfirst, hplace⟩ | ⟨hcs, hfirst⟩
  · rw [Bytes.simpleString, if_pos hfirst, hcs, simpleString_quote,
      hplace.loop (fun cs => (settled_stringPiece cs).1) simpleStringFrom_turn]
    congr 1
    split <;> omega
  · rw [Bytes.simpleString, if_neg hfirst, Scan.simpleString.eq_2 _ hcs]
    rfl

/-- Three marks stand in the rest of a line exactly if they stand in the rest of the text. -/
theorem isPrefixOf_marks_line (cs : List Char) :
    ['"', '"', '"'].isPrefixOf (cs.takeWhile fun c => !isLineEnd c) =
      ['"', '"', '"'].isPrefixOf cs := by
  rw [Bool.eq_iff_iff, List.isPrefixOf_iff_prefix, List.isPrefixOf_iff_prefix]
  refine ⟨fun h => h.trans (List.takeWhile_prefix _), ?_⟩
  rintro ⟨ds, rfl⟩
  exact List.prefix_append _ _

/-- Where a tripled string ends from an index on, if it ends on its line. -/
theorem tripleStringFrom_eq (h : bs.Ahead i cs) :
    bs.tripleStringFrom i =
      .ok ((beforeTriple 0 (cs.takeWhile fun c => !isLineEnd c)).elim 0 fun body =>
        i + body + 3 + min 2 (leading (· == '"') (cs.drop (body + 3)))) := by
  induction cs generalizing i with
  | nil =>
    rw [tripleStringFrom, dif_neg h.eq_size.not_lt]
    rfl
  | cons c cs ih =>
    obtain ⟨rest, hsuffix, hrest⟩ := h.suffix
    rw [tripleStringFrom, dif_pos h.lt_size, hsuffix, Checked.ok_bind, beginsWith, hrest]
    have hline := isPrefixOf_marks_line (c :: cs)
    -- Three marks close the string here, unless the line ends before.
    by_cases hmarks : ['"', '"', '"'].isPrefixOf (c :: cs) = true
    · obtain ⟨ds, hds⟩ := List.isPrefixOf_iff_prefix.1 hmarks
      have hbehind : bs.run (i + 3) (· == '"') = leading (· == '"') ((c :: cs).drop 3) :=
        (h.drop (by rw [← hds]; simp)).run _
      rw [if_pos hmarks, hbehind, Nat.min_comm, ← hds]
      simp [isLineEnd, beforeTriple]
    · rw [if_neg hmarks, h.read, Checked.ok_bind]
      cases hend : isLineEnd c with
      | true => simp [beforeTriple, hend]
      | false =>
        rw [List.takeWhile_cons_of_pos (by simp [hend])] at hline ⊢
        rw [ih h.tail, beforeTriple, hline, if_neg hmarks, beforeTriple_add (0 + 1)]
        cases beforeTriple 0 (cs.takeWhile fun c => !isLineEnd c) with
        | none => rfl
        | some body =>
          have hdrop : (c :: cs).drop (0 + 1 + body + 3) = cs.drop (body + 3) := by
            rw [Nat.add_right_comm 0, Nat.add_right_comm, List.drop_succ_cons, Nat.zero_add]
          have hindex : i + 1 + body = i + (0 + 1 + body) := by omega
          rw [if_neg Bool.false_ne_true, Option.map_some, Option.elim_some, Option.elim_some, hdrop,
            hindex]

theorem tripleString_eq (bs : Bytes) : bs.tripleString = .ok (Scan.tripleString bs.chars) := by
  unfold Bytes.tripleString
  split
  case isTrue h =>
    obtain ⟨cs, hcs⟩ := beginsWith_iff.1 h
    have hplace : bs.Ahead 3 cs := (hcs ▸ Ahead.start bs).drop (n := 3) (by simp)
    rw [tripleStringFrom_eq hplace, ← hcs, List.cons_append, List.cons_append,
      List.singleton_append, tripleString_marks]
    cases beforeTriple 0 (cs.takeWhile fun c => !isLineEnd c) with
    | none => rfl
    | some body =>
      have hindex : 3 + body + 3 = body + 6 := by omega
      rw [Option.elim_some, Option.elim_some, hindex]
  case isFalse h =>
    rw [Scan.tripleString.eq_2 _ fun ds hds => h (beginsWith_iff.2 ⟨ds, hds.symm⟩)]
    rfl

theorem quotedString_eq (bs : Bytes) : bs.quotedString = .ok (Scan.quotedString bs.chars) := by
  rw [Bytes.quotedString, simpleString_eq, tripleString_eq]
  rfl

/-! ## Numbers -/

theorem sign_eq (bs : Bytes) (start : Nat) : bs.sign start = Scan.sign (bs.chars.drop start) := by
  rw [Bytes.sign, get?_eq]
  cases bs.chars.drop start with
  | nil => rfl
  | cons c cs => simp [Scan.sign]

theorem run_digits (bs : Bytes) (i : Nat) : bs.run i Char.isDigit = digits (bs.chars.drop i) := rfl

theorem exponent_eq (bs : Bytes) (start : Nat) :
    bs.exponent start = Scan.exponent (bs.chars.drop start) := by
  rw [Bytes.exponent, get?_eq, sign_eq]
  cases hrest : bs.chars.drop start with
  | nil => rfl
  | cons c cs =>
    simp only [run_digits, ← List.drop_drop, drop_succ_of_drop hrest, Scan.exponent,
      List.head?_cons, Option.some.injEq]

theorem decimal_eq (bs : Bytes) : bs.decimal = Scan.decimal bs.chars := by
  unfold Bytes.decimal Scan.decimal
  simp only [exponent_eq, run_digits, get?_eq, List.drop_zero]
  rcases Nat.eq_zero_or_pos (digits bs.chars) with hwhole | hwhole
  · rw [hwhole, List.drop_zero]
    cases hcs : bs.chars with
    | nil => rfl
    | cons c cs =>
      by_cases hc : c = '.'
      · subst hc
        cases hfraction : digits cs <;> simp [hfraction, Nat.add_comm 1]
      · simp [hc]
  · generalize digits bs.chars = whole at hwhole ⊢
    cases hrest : bs.chars.drop whole with
    | nil => simp [hwhole, hwhole.ne', Scan.exponent]
    | cons c rest =>
      by_cases hc : c = '.'
      · subst hc
        have hnone : Scan.exponent ('.' :: rest) = 0 := by simp [Scan.exponent]
        simp [hwhole, hwhole.ne', hnone, ← List.drop_drop, drop_succ_of_drop hrest]
      · by_cases hexp : Scan.exponent (c :: rest) = 0 <;>
          simp [hwhole, hwhole.ne', hc, hexp, Nat.pos_iff_ne_zero]

/-! ## Names -/

theorem parameter_eq (bs : Bytes) : bs.parameter = Scan.parameter bs.chars := by
  rw [Bytes.parameter, get?_zero, get?_eq, run_eq, run_eq]
  match bs.chars with
  | [] => rfl
  | [c] => by_cases hc : c = '?' <;> simp [Scan.parameter, hc]
  | c :: d :: cs =>
    by_cases hc : c = '?'
    · subst hc
      have hnumber : d.isDigit = true → 1 + leading Char.isDigit (d :: cs) = 2 + digits cs := by
        intro hdigit
        rw [leading_cons_of_pos hdigit, digits]
        omega
      by_cases hdigit : d.isDigit = true
      · simp [Scan.parameter, hdigit, hnumber hdigit]
      · simp [Scan.parameter, hdigit]
    · simp [Scan.parameter, hc]

theorem word_eq (opens body : Char → Bool) (bs : Bytes) :
    bs.word opens body = Scan.word opens body bs.chars := by
  rw [Bytes.word, get?_zero, run_eq]
  cases bs.chars <;> rfl

/-- Something is behind the first backquote exactly if the index has gone on from there. -/
theorem quotedIdentifierFrom_eq {blocks accepted : Nat} (h : bs.Ahead i cs) (hi : 0 < i)
    (hblocks : 0 < blocks ↔ 1 < i) :
    bs.quotedIdentifierFrom i blocks accepted =
      .ok (Scan.quotedIdentifierFrom i accepted cs) := by
  fun_induction Scan.quotedIdentifierFrom i accepted cs generalizing blocks with
  | case1 i accepted cs ih =>
    -- Two backquotes stand for one, and the name goes on.
    rw [Bytes.quotedIdentifierFrom, dif_pos h.lt_size, h.read, Checked.ok_bind, if_pos rfl,
      h.get?_succ]
    simp only [hblocks]
    exact ih h.tail.tail (Nat.succ_pos _) (by omega)
  | case2 i accepted cs hlone hblock | case3 i accepted cs hlone hblock =>
    -- A lone backquote closes the name, if anything stands before it.
    have hnext : cs.head? ≠ some '\x60' := by
      intro hhead
      obtain ⟨ds, rfl⟩ := List.head?_eq_some_iff.1 hhead
      exact hlone ds rfl
    rw [Bytes.quotedIdentifierFrom, dif_pos h.lt_size, h.read, Checked.ok_bind, if_pos rfl,
      h.get?_succ]
    simp [hnext, hblocks, hblock]
  | case4 i accepted c cs hpair hc ih =>
    rw [Bytes.quotedIdentifierFrom, dif_pos h.lt_size, h.read, Checked.ok_bind, if_neg hc]
    exact ih h.tail (Nat.succ_pos _) (by omega)
  | case5 i accepted =>
    rw [Bytes.quotedIdentifierFrom, dif_neg h.eq_size.not_lt]
    rfl

theorem quotedIdentifier_eq (bs : Bytes) :
    bs.quotedIdentifier = .ok (Scan.quotedIdentifier bs.chars) := by
  rcases bs.first_cases '\x60' with ⟨cs, hcs, hfirst, hplace⟩ | ⟨hcs, hfirst⟩
  · rw [Bytes.quotedIdentifier, if_pos hfirst, hcs,
      quotedIdentifierFrom_eq hplace (Nat.succ_pos 0) (by simp)]
    rfl
  · rw [Bytes.quotedIdentifier, if_neg hfirst, Scan.quotedIdentifier.eq_2 _ hcs]
    rfl

theorem idPatternFrom_turn (h : bs.Ahead i cs) :
    bs.idPatternFrom i =
      if patternPiece cs = 0 then .ok i else bs.idPatternFrom (i + patternPiece cs) := by
  obtain ⟨rest, hsuffix, hrest⟩ := h.suffix
  conv_lhs => rw [idPatternFrom]
  rw [hsuffix, Checked.ok_bind, quotedIdentifier_eq, Checked.ok_bind, unquotedPattern, word_eq,
    hrest]
  change (if _ : 0 < patternPiece cs ∧ i < bs.size then _ else _) = _
  have hlen := h.length_eq
  have hle := patternPiece_le_length cs
  rcases Nat.eq_zero_or_pos (patternPiece cs) with hzero | hpos
  · rw [dif_neg (by omega), if_pos hzero]
    rfl
  · rw [dif_pos ⟨hpos, by omega⟩, if_neg hpos.ne']
    rfl

theorem idPattern_eq (bs : Bytes) : bs.idPattern = .ok (Scan.idPattern bs.chars) := by
  rw [Bytes.idPattern, (Ahead.start bs).loop patternPiece_le_length idPatternFrom_turn,
    Nat.zero_add]
  rfl

end Bytes

/-! ## Recognizers -/

namespace Recognizer

/-- Nothing is read out of range, and as many bytes are taken as characters of the same codes. -/
theorem matchBytes_eq {r : Recognizer} (h : r.IsAscii) (bs : Bytes) :
    r.matchBytes bs = .ok (r.matchLength bs.chars) := by
  cases r with
  | literal text | keyword text =>
    have hascii : Text.spread text = text := Text.spread_of_ascii (h text rfl)
    rw [matchBytes, Bytes.fixed, Text.chars_bytes, hascii]
    rfl
  | lineComment => exact congrArg _ bs.lineComment_eq
  | blockComment => exact bs.blockComment_eq
  | whitespace | unknownCommand | integer | setting => rfl
  | unquotedSource => exact bs.unquotedSource_eq
  | quotedString => exact bs.quotedString_eq
  | decimal => exact congrArg _ bs.decimal_eq
  | parameter => exact congrArg _ bs.parameter_eq
  | unquotedIdentifier => exact congrArg _ (bs.word_eq _ _)
  | quotedIdentifier => exact bs.quotedIdentifier_eq
  | idPattern => exact bs.idPattern_eq
  | policyName => exact congrArg _ bs.policyName_eq

end Recognizer

end PipeQuery
