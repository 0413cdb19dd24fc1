-- SUMMARY: The scanners for open patterns read nothing out of range either, and reach as far as the scanners of lists reach in the bytes.
import PipeQuery.Bytes.Reach
import PipeQuery.Proofs.Bytes.Scan
import PipeQuery.Proofs.Recognizer.OpenString
import PipeQuery.Proofs.Recognizer.OpenName

/-! # Open Patterns in Bytes -/

namespace PipeQuery

namespace Bytes

open CharClass Scan

variable {bs : Bytes} {i : Nat} {cs : List Char}

/-! ## Comments, Sources and Policies -/

theorem openLineComment_eq (bs : Bytes) : bs.openLineComment = Scan.openLineComment bs.chars := by
  rw [Bytes.openLineComment, beginsWith]
  cases bs.chars with
  | nil => rfl
  | cons c cs =>
    by_cases hc : c = '/'
    · subst hc
      rfl
    · simp [List.isPrefixOf, Scan.openLineComment, hc, Ne.symm hc]

theorem openBlockComment_eq (bs : Bytes) :
    bs.openBlockComment = Scan.openBlockComment bs.chars := by
  rw [Bytes.openBlockComment, beginsWith, beginsWith, ← length_chars]
  cases bs.chars with
  | nil => rfl
  | cons c cs =>
    by_cases hc : c = '/'
    · subst hc
      cases cs with
      | nil => rfl
      | cons d cs =>
        by_cases hd : d = '*'
        · subst hd
          rfl
        · simp [List.isPrefixOf, Scan.openBlockComment, hd, Ne.symm hd]
    · simp [List.isPrefixOf, Scan.openBlockComment, hc, Ne.symm hc]

theorem openSource_eq (bs : Bytes) : bs.openSource = .ok (Scan.openSource bs.chars) := by
  rw [Bytes.openSource, unquotedSource_eq, Checked.ok_bind, get?_eq, Scan.openSource]
  cases bs.chars.drop (Scan.unquotedSource bs.chars) with
  | nil => rfl
  | cons c rest => by_cases hc : c = '/' <;> simp [hc]

theorem openPolicyName_eq (bs : Bytes) : bs.openPolicyName = Scan.openPolicyName bs.chars := by
  rw [Bytes.openPolicyName, run_eq, get?_eq, List.drop_zero, Scan.openPolicyName]
  generalize leading isPolicy bs.chars = head
  cases bs.chars.drop head with
  | nil => simp
  | cons c rest =>
    by_cases hc : c = ':' <;> by_cases hhead : head = 0 <;> simp [hc, hhead, Nat.pos_iff_ne_zero]

/-! ## Strings -/

theorem openSimpleStringFrom_turn (h : bs.Ahead i cs) :
    bs.openSimpleStringFrom i =
      if stringPiece cs = 0 then
        .ok (if cs.head? = some '"' ∨ cs.head? = some '\\' then i + 1 else i)
      else bs.openSimpleStringFrom (i + stringPiece cs) := by
  cases cs with
  | nil =>
    rw [openSimpleStringFrom, dif_neg h.eq_size.not_lt, ← h.eq_size]
    rfl
  | cons c cs =>
    conv_lhs => rw [openSimpleStringFrom]
    rw [dif_pos h.lt_size, h.read, Checked.ok_bind, h.get?_succ]
    -- An escape takes two characters, of which the second may be missing.
    by_cases hc : c = '\\'
    · subst hc
      cases cs with
      | nil =>
        rw [← h.tail.eq_size]
        rfl
      | cons d cs => cases hd : isEscaped d <;> simp [hd]
    · rw [stringPiece_of_ne hc]
      by_cases hmark : c = '"'
      · simp [hmark]
      · cases hline : isLineEnd c <;> simp [hc, hmark]

theorem openSimpleString_eq (bs : Bytes) :
    bs.openSimpleString = .ok (Scan.openSimpleString bs.chars) := by
  rcases bs.first_cases '"' with ⟨cs, hcs, hfirst, hplace⟩ | ⟨hcs, hfirst⟩
  · rw [Bytes.openSimpleString, if_pos hfirst, hcs, openSimpleString_quote,
      hplace.loop (fun cs => (settled_stringPiece cs).1) openSimpleStringFrom_turn]
    congr 1
    split <;> omega
  · rw [Bytes.openSimpleString, if_neg hfirst, Scan.openSimpleString.eq_2 _ hcs]
    rfl

theorem openTripleString_eq (bs : Bytes) :
    bs.openTripleString = Scan.openTripleString bs.chars := by
  simp only [Bytes.openTripleString, Scan.openTripleString, run_eq, List.drop_zero, Nat.min_comm]

/-! ## Numbers -/

theorem withOpenExponent_eq (bs : Bytes) (stop : Nat) :
    bs.withOpenExponent stop = stop + Scan.openExponent (bs.chars.drop stop) := by
  rw [withOpenExponent, get?_eq, sign_eq]
  cases hrest : bs.chars.drop stop with
  | nil => rfl
  | cons c cs =>
    simp only [run_digits, ← List.drop_drop, drop_succ_of_drop hrest, Scan.openExponent,
      List.head?_cons, Option.some.injEq]
    split <;> omega

theorem openDecimal_eq (bs : Bytes) : bs.openDecimal = Scan.openDecimal bs.chars := by
  unfold Bytes.openDecimal Scan.openDecimal
  simp only [withOpenExponent_eq, run_digits, get?_eq, List.drop_zero]
  rcases Nat.eq_zero_or_pos (digits bs.chars) with hwhole | hwhole
  · rw [hwhole, List.drop_zero]
    cases hcs : bs.chars with
    | nil => rfl
    | cons c cs =>
      by_cases hc : c = '.'
      · subst hc
        cases hfraction : digits cs <;> simp [hfraction, Nat.add_comm 1]
      · simp [hc]
  · generalize digits bs.chars = whole at hwhole ⊢
    cases hrest : bs.chars.drop whole with
    | nil => simp [hwhole, hwhole.ne']
    | cons c rest =>
      by_cases hc : c = '.'
      · subst hc
        simp [hwhole, hwhole.ne', ← List.drop_drop, drop_succ_of_drop hrest]
      · simp [hwhole, hwhole.ne', hc]

/-! ## Names -/

theorem openMark_eq (p : Char → Bool) (bs : Bytes) :
    bs.openMark p = Scan.openMark p bs.chars := by
  rw [Bytes.openMark, get?_zero]
  cases bs.chars <;> rfl

theorem openQuotedIdentifierFrom_turn (h : bs.Ahead i cs) :
    bs.openQuotedIdentifierFrom i =
      if backquotedPiece cs = 0 then .ok (if cs = [] then i else i + 1)
      else bs.openQuotedIdentifierFrom (i + backquotedPiece cs) := by
  cases cs with
  | nil =>
    rw [openQuotedIdentifierFrom, dif_neg h.eq_size.not_lt, ← h.eq_size]
    rfl
  | cons c cs =>
    conv_lhs => rw [openQuotedIdentifierFrom]
    rw [dif_pos h.lt_size, h.read, Checked.ok_bind, h.get?_succ]
    by_cases hc : c = '\x60'
    · subst hc
      cases cs with
      | nil => rfl
      | cons d cs =>
        by_cases hd : d = '\x60'
        · subst hd
          rfl
        · simp [backquotedPiece, hd]
    · rw [backquotedPiece_of_ne hc]
      simp [hc]

theorem backquotedPiece_le_length (cs : List Char) : backquotedPiece cs ≤ cs.length := by
  unfold backquotedPiece
  split <;> simp

theorem openQuotedIdentifier_eq (bs : Bytes) :
    bs.openQuotedIdentifier = .ok (Scan.openQuotedIdentifier bs.chars) := by
  rcases bs.first_cases '\x60' with ⟨cs, hcs, hfirst, hplace⟩ | ⟨hcs, hfirst⟩
  · rw [Bytes.openQuotedIdentifier, if_pos hfirst, hcs,
      hplace.loop backquotedPiece_le_length openQuotedIdentifierFrom_turn]
    cases hrest : cs.drop (pieces backquotedPiece cs) with
    | nil => simp [Scan.openQuotedIdentifier, hrest, Nat.add_comm]
    | cons d rest =>
      simp only [Scan.openQuotedIdentifier, hrest, reduceCtorEq, if_false, Except.ok.injEq]
      omega
  · rw [Bytes.openQuotedIdentifier, if_neg hfirst, Scan.openQuotedIdentifier.eq_2 _ hcs]
    rfl

/-- The part that is still open is looked for in a slice that begins where the pattern ends. -/
theorem openIdPattern_eq (bs : Bytes) : bs.openIdPattern = .ok (Scan.openIdPattern bs.chars) := by
  have hle : Scan.idPattern bs.chars ≤ bs.chars.length :=
    pieces_le_length patternPiece_le_length bs.chars
  obtain ⟨rest, hsuffix, hrest⟩ := ((Ahead.start bs).drop hle).suffix
  rw [Nat.zero_add] at hsuffix
  rw [Bytes.openIdPattern, idPattern_eq, Checked.ok_bind, hsuffix, Checked.ok_bind, get?_zero,
    openQuotedIdentifier_eq, hrest, Scan.openIdPattern]
  generalize bs.chars.drop (Scan.idPattern bs.chars) = ds
  cases ds with
  | nil => rfl
  | cons c ds =>
    by_cases hquote : c = '\x60'
    · subst hquote
      simp [Scan.openMark]
    · have hnone : Scan.openQuotedIdentifier (c :: ds) = 0 := by
        simp [Scan.openQuotedIdentifier, hquote]
      by_cases hmark : c = '_' ∨ c = '@'
      · rcases hmark with rfl | rfl <;> simp [Scan.openMark, hnone]
      · rw [not_or] at hmark
        simp [Scan.openMark, hnone, hquote, hmark]

end Bytes

namespace Recognizer

theorem openBytes_eq {r : Recognizer} (h : r.IsAscii) (bs : Bytes) :
    r.openBytes bs = .ok (r.openLength bs.chars) := by
  cases r with
  | literal text | keyword text =>
    have hascii : Text.spread text = text := Text.spread_of_ascii (h text rfl)
    rw [openBytes, Bytes.shared, Text.chars_bytes, hascii]
    rfl
  | lineComment => exact congrArg _ bs.openLineComment_eq
  | blockComment => exact congrArg _ bs.openBlockComment_eq
  | whitespace | unknownCommand | integer | setting => rfl
  | unquotedSource => exact bs.openSource_eq
  | quotedString =>
    rw [openBytes, bs.openSimpleString_eq, Checked.ok_bind, bs.openTripleString_eq]
    rfl
  | decimal => exact congrArg _ bs.openDecimal_eq
  | parameter => exact congrArg _ (bs.openMark_eq _)
  | unquotedIdentifier => exact congrArg _ (bs.openMark_eq _)
  | quotedIdentifier => exact bs.openQuotedIdentifier_eq
  | idPattern => exact bs.openIdPattern_eq
  | policyName => exact congrArg _ bs.openPolicyName_eq

/-- Nothing is read out of range, and the reach is that in characters of the same codes. -/
theorem reachBytes_eq {r : Recognizer} (h : r.IsAscii) (bs : Bytes) :
    r.reachBytes bs = .ok (r.reach bs.chars) := by
  rw [reachBytes, openBytes_eq h, matchBytes_eq h]
  rfl

end Recognizer

end PipeQuery
