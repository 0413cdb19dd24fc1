-- SUMMARY: What a recognizer accepts of a text is never longer than the text.
import PipeQuery.Proofs.Recognizer.Scan
import PipeQuery.Recognizer.Match

/-! # Bounds of Match Lengths

Every scanner measures a beginning of the text that it is given, so that its
answer may be used to cut the text. -/

namespace PipeQuery

namespace Scan

/-! ## Comments -/

theorem lineComment_le_length (cs : List Char) : lineComment cs ≤ cs.length := by
  unfold lineComment
  split
  case h_1 cs =>
    have := leading_le_length (fun c => !CharClass.isLineEnd c) cs
    simp only [List.length_cons]
    omega
  case h_2 => exact Nat.zero_le _

theorem blockComment_le_length (cs : List Char) : blockComment cs ≤ cs.length := by
  unfold blockComment
  split
  case h_1 cs =>
    split
    case h_1 body hbody =>
      obtain ⟨k, -, rfl⟩ := Option.map_eq_some_iff.1 hbody
      simp only [List.length_cons]
      omega
    case h_2 => exact Nat.zero_le _
  case h_2 => exact Nat.zero_le _

/-! ## Sources and Policies -/

theorem unquotedSource_le_length (cs : List Char) : unquotedSource cs ≤ cs.length :=
  settled_sourcePiece.pieces_le_length cs

theorem policyName_le_length (cs : List Char) : policyName cs ≤ cs.length := by
  have hhead := leading_le_length CharClass.isPolicy cs
  unfold policyName
  dsimp only
  split
  case h_1 rest hrest =>
    have htail := leading_le_length CharClass.isPolicy rest
    have hlen := congrArg List.length hrest
    rw [List.length_drop, List.length_cons] at hlen
    split <;> omega
  case h_2 => exact hhead

/-! ## Strings -/

theorem simpleString_le_length (cs : List Char) : simpleString cs ≤ cs.length := by
  unfold simpleString
  split
  case h_1 cs =>
    dsimp only
    split
    case h_1 rest hrest =>
      have hlen := congrArg List.length hrest
      rw [List.length_drop, List.length_cons] at hlen
      rw [List.length_cons]
      omega
    case h_2 => exact Nat.zero_le _
  case h_2 => exact Nat.zero_le _

theorem beforeTriple_le {count body : Nat} {cs : List Char} (h : beforeTriple count cs = some body) :
    body + 3 ≤ count + cs.length := by
  induction cs generalizing count with
  | nil => exact absurd h nofun
  | cons c cs ih =>
    rw [beforeTriple] at h
    split at h
    case isTrue hmarks =>
      have hlen := (List.isPrefixOf_iff_prefix.1 hmarks).length_le
      have hbody := Option.some.inj h
      simp only [List.length_cons, List.length_nil] at hlen ⊢
      omega
    case isFalse =>
      have := ih h
      rw [List.length_cons]
      omega

theorem tripleString_le_length (cs : List Char) : tripleString cs ≤ cs.length := by
  unfold tripleString
  split
  case h_1 cs =>
    split
    case h_1 body hbody =>
      have hline := (List.takeWhile_sublist (l := cs) fun c => !CharClass.isLineEnd c).length_le
      have hmarks := leading_le_length (· == '"') (cs.drop (body + 3))
      have hend := beforeTriple_le hbody
      rw [List.length_drop] at hmarks
      simp only [List.length_cons]
      omega
    case h_2 => exact Nat.zero_le _
  case h_2 => exact Nat.zero_le _

theorem quotedString_le_length (cs : List Char) : quotedString cs ≤ cs.length :=
  Nat.max_le.2 ⟨simpleString_le_length cs, tripleString_le_length cs⟩

/-! ## Numbers -/

theorem digits_le_length (cs : List Char) : digits cs ≤ cs.length :=
  leading_le_length _ cs

theorem sign_le_length (cs : List Char) : sign cs ≤ cs.length := by
  cases cs with
  | nil => exact Nat.zero_le _
  | cons c cs =>
    rw [sign, List.length_cons]
    split <;> omega

theorem exponent_le_length (cs : List Char) : exponent cs ≤ cs.length := by
  cases cs with
  | nil => exact Nat.zero_le _
  | cons c cs =>
    have hsign := sign_le_length cs
    have hdigits := digits_le_length (cs.drop (sign cs))
    rw [List.length_drop] at hdigits
    rw [exponent, List.length_cons]
    dsimp only
    split
    · split <;> omega
    · exact Nat.zero_le _

theorem decimal_le_length (cs : List Char) : decimal cs ≤ cs.length := by
  have hwhole := digits_le_length cs
  have hlen : (cs.drop (digits cs)).length = cs.length - digits cs := List.length_drop
  unfold decimal
  dsimp only
  split
  case h_1 rest hrest =>
    have hfraction := digits_le_length rest
    have hexp := exponent_le_length (rest.drop (digits rest))
    rw [hrest, List.length_cons] at hlen
    rw [List.length_drop] at hexp
    split <;> omega
  case h_2 rest =>
    have hexp := exponent_le_length (cs.drop (digits cs))
    split <;> omega

/-! ## Names -/

theorem parameter_le_length (cs : List Char) : parameter cs ≤ cs.length := by
  unfold parameter
  split
  case h_1 c cs =>
    have hword := leading_le_length CharClass.isWord cs
    have hdigits := digits_le_length cs
    simp only [List.length_cons]
    split
    · omega
    · split <;> omega
  case h_2 => exact Nat.zero_le _

theorem word_le_length (opens body : Char → Bool) (cs : List Char) :
    word opens body cs ≤ cs.length := by
  cases cs with
  | nil => exact Nat.zero_le _
  | cons c cs =>
    have hbody := leading_le_length body cs
    rw [word, List.length_cons]
    dsimp only
    split
    · omega
    · split
      · split <;> omega
      · exact Nat.zero_le _

theorem quotedIdentifierFrom_le (passed accepted : Nat) (cs : List Char) :
    quotedIdentifierFrom passed accepted cs ≤ max accepted (passed + cs.length) := by
  fun_induction quotedIdentifierFrom passed accepted cs with
  | case1 passed accepted cs ih =>
    have hname : (if 1 < passed then passed + 1 else accepted) ≤ max accepted (passed + 1) := by
      split
      · exact Nat.le_max_right _ _
      · exact Nat.le_max_left _ _
    simp only [List.length_cons]
    refine Nat.le_trans ih (Nat.max_le.2 ⟨Nat.le_trans hname ?_, ?_⟩)
    · omega
    · omega
  | case2 passed accepted cs | case3 passed accepted cs =>
    rw [List.length_cons]
    omega
  | case4 passed accepted c cs _ _ ih =>
    rw [List.length_cons]
    omega
  | case5 => omega

theorem quotedIdentifier_le_length (cs : List Char) : quotedIdentifier cs ≤ cs.length := by
  unfold quotedIdentifier
  split
  case h_1 cs =>
    have := quotedIdentifierFrom_le 1 0 cs
    rw [List.length_cons]
    omega
  case h_2 => exact Nat.zero_le _

theorem patternPiece_le_length (cs : List Char) : patternPiece cs ≤ cs.length :=
  Nat.max_le.2 ⟨word_le_length _ _ cs, quotedIdentifier_le_length cs⟩

theorem fixed_le_length (same : Char → Char → Bool) (text cs : List Char) :
    fixed same text cs ≤ cs.length := by
  have hle := shared_le_right same text cs
  unfold fixed
  split <;> omega

end Scan

/-! ## Recognizers -/

/-- A recognizer accepts no more than there is. -/
theorem Recognizer.matchLength_le_length (r : Recognizer) (cs : List Char) :
    r.matchLength cs ≤ cs.length := by
  cases r with
  | literal text => exact Scan.fixed_le_length _ text cs
  | keyword word => exact Scan.fixed_le_length _ word cs
  | lineComment => exact Scan.lineComment_le_length cs
  | blockComment => exact Scan.blockComment_le_length cs
  | whitespace | unknownCommand | integer | setting => exact Scan.leading_le_length _ cs
  | unquotedSource => exact Scan.unquotedSource_le_length cs
  | quotedString => exact Scan.quotedString_le_length cs
  | decimal => exact Scan.decimal_le_length cs
  | parameter => exact Scan.parameter_le_length cs
  | unquotedIdentifier => exact Scan.word_le_length _ _ cs
  | quotedIdentifier => exact Scan.quotedIdentifier_le_length cs
  | idPattern => exact Scan.pieces_le_length Scan.patternPiece_le_length cs
  | policyName => exact Scan.policyName_le_length cs

theorem Recognizer.matchSize_pos_iff {r : Recognizer} {cs : List Char} :
    0 < r.matchSize cs ↔ 0 < r.matchLength cs := by
  have hle := r.matchLength_le_length cs
  rw [Nat.pos_iff_ne_zero, matchSize, ne_eq, Text.size_eq_zero_iff, ← List.length_eq_zero_iff,
    List.length_take]
  omega

end PipeQuery
