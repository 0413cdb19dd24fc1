-- SUMMARY: A scanner for open patterns reaches in the bytes of a text as far as the characters that it reaches in the text.
import PipeQuery.Proofs.Bytes.Match
import PipeQuery.Proofs.Recognizer.OpenString
import PipeQuery.Proofs.Recognizer.OpenName

/-! # Open Patterns of Encoded Texts

An open pattern ends behind a match, behind one more ASCII mark, or where a run ends, so its end
is no place inside a character either. -/

namespace PipeQuery

namespace Scan

open CharClass Text

/-! ## Marks -/

theorem asciiOnly_openMark {p : Char → Bool} (hp : Narrow p) : AsciiOnly (openMark p) := by
  refine asciiOnly_of_cons rfl (fun {c _} hc => ?_) (fun _ => rfl) fun {c cs} hc => ?_
  · rw [openMark, hp c hc]
    rfl
  · rw [openMark]
    split
    case isTrue => exact size_take_cons_succ hc cs 0
    case isFalse => rfl

theorem countsBytes_openBlockComment : CountsBytes openBlockComment := by
  refine countsBytes_of_prefix ['/'] (by decide) (fun ds => ?_) fun cs hother => ?_
  · rw [List.singleton_append, List.singleton_append]
    by_cases hstar : ∃ es, ds = '*' :: es
    · -- All bytes that follow are swallowed.
      obtain ⟨es, rfl⟩ := hstar
      have hall : (('/' :: '*' :: es).take (es.length + 2)) = '/' :: '*' :: es :=
        List.take_length (l := '/' :: '*' :: es)
      rw [spread_cons_of_not_wide (by decide), openBlockComment, openBlockComment, hall,
        length_spread]
      simp only [size_cons, utf8Size_of_not_wide (c := '/') (by decide),
        utf8Size_of_not_wide (c := '*') (by decide)]
      omega
    · have hone : ∀ cs, (∀ es, cs ≠ '*' :: es) → openBlockComment ('/' :: cs) = 1 := fun cs h =>
        openBlockComment.eq_2 cs h
      have hnone := not_exists.1 hstar
      rw [hone _ (spread_ne_cons (by decide) hnone), hone _ hnone]
      rfl
  · exact openBlockComment.eq_3 cs (fun es => hother ('*' :: es)) hother

theorem countsBytes_openSource : CountsBytes openSource := by
  intro cs
  rw [openSource, openSource, countsBytes_unquotedSource.drop, countsBytes_unquotedSource cs]
  cases hrest : cs.drop (unquotedSource cs) with
  | nil => rfl
  | cons c rest =>
    by_cases hc : c = '/'
    · subst hc
      rw [spread_cons_of_not_wide (by decide)]
      exact (size_take_mark (m := 0) (by decide) hrest).symm
    · obtain ⟨b, bs, hspread, hne⟩ := exists_spread_cons_of_ne (by decide) hc rest
      rw [hspread]
      simp [hc, hne]

theorem countsBytes_openPolicyName : CountsBytes openPolicyName := by
  have hrun := countsBytes_policyRun
  intro cs
  have hle := leading_le_length isPolicy cs
  rw [openPolicyName, openPolicyName, hrun.drop, hrun cs]
  generalize leading isPolicy cs = head at hle ⊢
  cases hrest : cs.drop head with
  | nil => rfl
  | cons c rest =>
    by_cases hc : c = ':'
    · subst hc
      rw [spread_cons_of_not_wide (by decide)]
      simp only [size_take_eq_zero_iff hle]
      by_cases hhead : head = 0
      · rw [if_pos hhead, if_pos hhead]
        rfl
      · rw [if_neg hhead, if_neg hhead]
        exact (size_take_mark (m := 0) (by decide) hrest).symm
    · obtain ⟨b, bs, hspread, hne⟩ := exists_spread_cons_of_ne (by decide) hc rest
      rw [hspread]
      simp [hc, hne]

/-! ## Strings -/

theorem countsBytes_openSimpleString : CountsBytes openSimpleString := by
  refine countsBytes_of_prefix ['"'] (by decide) (fun ds => ?_) openSimpleString.eq_2
  rw [List.singleton_append, List.singleton_append, openSimpleString_quote, openSimpleString_quote,
    countsBytes_stringPieces.drop, countsBytes_stringPieces ds]
  simp only [head?_spread_eq_iff (k := '"') (by decide),
    head?_spread_eq_iff (k := '\\') (by decide)]
  split
  case isTrue hmark =>
    obtain ⟨k, rest, hk, hrest⟩ :
        ∃ k rest, ¬Wide k ∧ ds.drop (pieces stringPiece ds) = k :: rest := by
      rcases hmark with hmark | hmark
      · obtain ⟨rest, hrest⟩ := List.head?_eq_some_iff.1 hmark
        exact ⟨_, rest, by decide, hrest⟩
      · obtain ⟨rest, hrest⟩ := List.head?_eq_some_iff.1 hmark
        exact ⟨_, rest, by decide, hrest⟩
    rw [size_take_cons_succ (by decide), size_take_mark (m := 0) hk hrest]
    rfl
  case isFalse => rw [size_take_cons_succ (by decide)]

theorem countsBytes_openTripleString : CountsBytes openTripleString := by
  intro cs
  have hmark : Narrow (· == '"') := narrow_beq (by decide)
  have hmarks := size_take_of_le_leading hmark (Nat.min_le_right 3 (leading (· == '"') cs))
  rw [openTripleString, openTripleString, (asciiOnly_leading hmark).spread]
  split
  case isTrue => rw [hmarks]
  case isFalse hthree =>
    have hall : min 3 (leading (· == '"') cs) = 3 := by omega
    rw [hall] at hmarks
    have hdrop : (spread cs).drop 3 = spread (cs.drop 3) := by
      conv_lhs => rw [← hmarks]
      rw [drop_spread]
    rw [hdrop, countsBytes_leading narrow_isLineEnd.uniform.not, size_take_add, hmarks]

/-! ## Numbers -/

theorem asciiOnly_openExponent : AsciiOnly openExponent := by
  refine asciiOnly_of_cons rfl (fun hc => ?_) (fun hc => ?_) fun {c cs} hc => ?_
  · exact if_neg (not_mark_of_wide hc (by decide) (by decide))
  · rw [openExponent, openExponent, asciiOnly_sign.spread, asciiOnly_sign.drop,
      asciiOnly_digits.spread]
  · rw [openExponent]
    split
    case isTrue => exact size_take_exponent hc cs
    case isFalse => rfl

theorem asciiOnly_openDecimal : AsciiOnly openDecimal := by
  refine ⟨fun cs => ?_, fun cs => ?_⟩
  · rw [openDecimal, openDecimal, asciiOnly_digits.spread, asciiOnly_digits.drop]
    -- Behind the digits comes a point, an exponent, or neither.
    cases cs.drop (digits cs) with
    | nil => rfl
    | cons c rest =>
      by_cases hc : c = '.'
      · subst hc
        rw [spread_cons_of_not_wide (by decide)]
        simp only [asciiOnly_digits.spread, asciiOnly_digits.drop, asciiOnly_openExponent.spread]
      · obtain ⟨b, bs, hspread, hne⟩ := exists_spread_cons_of_ne (by decide) hc rest
        have hexp := asciiOnly_openExponent.spread (c :: rest)
        rw [hspread] at hexp ⊢
        simp [hc, hne, hexp]
  · have hwhole := asciiOnly_digits.size cs
    unfold openDecimal
    dsimp only
    split
    case h_1 rest hrest =>
      split
      case isTrue hnone =>
        rw [hnone.1, List.drop_zero] at hrest
        rw [hrest]
        rfl
      case isFalse =>
        rw [Nat.add_assoc, size_take_mark (by decide) hrest, size_take_add, hwhole,
          asciiOnly_digits.size, asciiOnly_openExponent.size]
    case h_2 =>
      refine size_take_ite ?_
      rw [size_take_add, hwhole, asciiOnly_openExponent.size]

/-! ## Names -/

theorem head?_of_backquotedPiece {c : Char} {cs : List Char} (h : backquotedPiece (c :: cs) = 0) :
    c = '\x60' := by
  by_contra hc
  rw [backquotedPiece_of_ne hc] at h
  exact absurd h Nat.one_ne_zero

theorem paired_backquotedPiece :
    Paired '\x60' (· == '\x60') (fun _ => true) backquotedPiece where
  nil := rfl
  lone := rfl
  behind d ds := by by_cases hd : d = '\x60' <;> simp [backquotedPiece, hd]
  other hc ds := (backquotedPiece_of_ne hc ds).trans (if_pos rfl).symm

theorem countsBytes_backquotedPieces : CountsBytes (pieces backquotedPiece) :=
  paired_backquotedPiece.countsBytes (by decide) (narrow_beq (by decide)).uniform fun _ => rfl

theorem countsBytes_openQuotedIdentifier : CountsBytes openQuotedIdentifier := by
  refine countsBytes_of_prefix ['\x60'] (by decide) (fun ds => ?_) openQuotedIdentifier.eq_2
  rw [List.singleton_append, List.singleton_append, openQuotedIdentifier, openQuotedIdentifier,
    countsBytes_backquotedPieces.drop, countsBytes_backquotedPieces ds]
  cases hrest : ds.drop (pieces backquotedPiece ds) with
  | nil => exact (size_take_cons_succ (by decide) ds _).symm
  | cons c rest =>
    -- Only a backquote is no piece.
    have hstop := (piece_drop_pieces backquotedPiece ds).resolve_left (by simp [hrest])
    rw [hrest] at hstop
    obtain rfl := head?_of_backquotedPiece hstop
    rw [spread_cons_of_not_wide (by decide)]
    dsimp only
    rw [size_take_cons_succ (by decide), size_take_mark (m := 0) (by decide) hrest]
    rfl

theorem countsBytes_openIdPattern : CountsBytes openIdPattern := by
  have hpattern : CountsBytes idPattern := countsBytes_patternPiece.pieces
  have hopen : Narrow fun c => c == '_' || c == '@' := narrow_beq_or (by decide) (by decide)
  have hrest := (asciiOnly_openMark hopen).countsBytes.max countsBytes_openQuotedIdentifier
  intro cs
  rw [openIdPattern, openIdPattern, hpattern.drop, size_take_add, hpattern cs]
  exact congrArg _ (hrest _)

/-! ## Fixed Texts -/

/-- Behind what is shared the texts differ. -/
theorem same_of_drop_shared {same : Char → Char → Bool} {text cs ts ds : List Char} {k c : Char}
    (htext : text.drop (shared same text cs) = k :: ts)
    (hcs : cs.drop (shared same text cs) = c :: ds) : same k c = false := by
  induction text generalizing cs with
  | nil => simp at htext
  | cons l text ih =>
    cases cs with
    | nil => simp at hcs
    | cons d cs =>
      rw [shared_cons_cons] at htext hcs
      split at htext
      case isTrue hsame =>
        rw [if_pos hsame] at hcs
        exact ih htext hcs
      case isFalse hsame =>
        rw [if_neg hsame] at hcs
        obtain ⟨rfl, -⟩ := List.cons.inj htext
        obtain ⟨rfl, -⟩ := List.cons.inj hcs
        exact Bool.not_eq_true _ ▸ hsame

/-- An ASCII character shares no byte with another character. -/
theorem sharedItems_eq_zero {k c : Char} (hk : ¬Wide k) (hne : c ≠ k) :
    sharedItems (String.utf8EncodeChar k) (String.utf8EncodeChar c) = 0 := by
  have hsingle := encoded_of_not_wide hk
  rw [encoded, List.map_eq_singleton_iff] at hsingle
  obtain ⟨x, hx, hxk⟩ := hsingle
  obtain ⟨y, ys, hys⟩ : ∃ y ys, String.utf8EncodeChar c = y :: ys := by
    refine List.exists_cons_of_length_pos ?_
    rw [String.length_utf8EncodeChar]
    exact c.utf8Size_pos
  have hy : Alike (Char.ofUInt8 y) c :=
    alike_of_mem_encoded (List.mem_map_of_mem (by rw [hys]; exact List.mem_cons_self))
  have hxy : x ≠ y := by
    rintro rfl
    rw [hxk] at hy
    exact hne ((hy.eq_iff hk).1 rfl)
  rw [hx, hys, sharedItems, if_neg hxy]

theorem sharedBytes_eq_zero {same : Char → Char → Bool} (hrefl : ∀ c, same c c = true)
    {text : List Char} (htext : IsAscii text) (cs : List Char) :
    sharedBytes same text cs = 0 := by
  unfold sharedBytes
  dsimp only
  split
  case h_1 k ts c ds hk hc =>
    have hdiffer := same_of_drop_shared hk hc
    refine sharedItems_eq_zero (htext k ?_) ?_
    · exact List.mem_of_mem_drop (hk ▸ List.mem_cons_self)
    · rintro rfl
      rw [hrefl] at hdiffer
      exact absurd hdiffer.symm Bool.false_ne_true
  case h_2 => rfl

end Scan

/-! ## Recognizers -/

namespace Recognizer

open CharClass Scan

theorem countsBytes_openLength {r : Recognizer} (h : r.IsAscii) : CountsBytes r.openLength := by
  have hname : Narrow fun c => c == '_' || c == '@' := narrow_beq_or (by decide) (by decide)
  cases r with
  | literal text =>
    exact (asciiOnly_shared fun k hk => narrow_beq_left (h text rfl k hk)).countsBytes
  | keyword text =>
    exact (asciiOnly_shared fun k hk => narrow_sameLetter (h text rfl k hk)).countsBytes
  | lineComment =>
    have hslash : (lineComment.openLength) = openMark (· == '/') := openLineComment_eq
    rw [hslash]
    exact (asciiOnly_openMark (narrow_beq (by decide))).countsBytes
  | blockComment => exact countsBytes_openBlockComment
  | whitespace | unknownCommand | integer | setting => exact fun _ => rfl
  | unquotedSource => exact countsBytes_openSource
  | quotedString => exact countsBytes_openSimpleString.max countsBytes_openTripleString
  | decimal => exact asciiOnly_openDecimal.countsBytes
  | parameter => exact (asciiOnly_openMark (narrow_beq (by decide))).countsBytes
  | unquotedIdentifier => exact (asciiOnly_openMark hname).countsBytes
  | quotedIdentifier => exact countsBytes_openQuotedIdentifier
  | idPattern => exact countsBytes_openIdPattern
  | policyName => exact countsBytes_openPolicyName

theorem countsBytes_reach {r : Recognizer} (h : r.IsAscii) : CountsBytes r.reach :=
  (countsBytes_openLength h).max (countsBytes_matchLength h)

theorem strayBytes_eq_zero {r : Recognizer} (h : r.IsAscii) (cs : List Char) :
    r.strayBytes cs = 0 := by
  cases r with
  | literal text => exact sharedBytes_eq_zero (fun c => beq_self_eq_true c) (h text rfl) cs
  | keyword text => exact sharedBytes_eq_zero (fun c => beq_self_eq_true c.toLower) (h text rfl) cs
  | lineComment | blockComment | whitespace | unknownCommand | integer | setting | unquotedSource
  | quotedString | decimal | parameter | unquotedIdentifier | quotedIdentifier | idPattern
  | policyName => rfl

theorem reachSize_eq {r : Recognizer} (h : r.IsAscii) (cs : List Char) :
    r.reachSize cs = Text.size (cs.take (r.reach cs)) := by
  rw [reachSize, strayBytes_eq_zero h, Nat.add_zero]

end Recognizer

end PipeQuery
