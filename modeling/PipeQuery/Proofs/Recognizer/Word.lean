-- SUMMARY: What word recognizers, keywords and all others take of a text that begins with a letter.
import PipeQuery.Proofs.Recognizer.CutLiteral
import PipeQuery.Proofs.Recognizer.LetterCase

/-! # Words

Word recognizers take a letter with all word characters behind it, and more if they are less
strict. A keyword is made of word characters, so that none outruns the word it begins. What
is neither takes no letter. -/

namespace PipeQuery

open CharClass

/-! ## Classes -/

namespace CharClass

theorem ne_of_isAlpha {c k : Char} (h : c.isAlpha = true) (hk : k.isAlpha = false) : c ≠ k := by
  rintro rfl
  rw [h] at hk
  exact absurd hk nofun

theorem isDigit_of_isAlpha {c : Char} (h : c.isAlpha = true) : c.isDigit = false := by
  by_contra hdigit
  obtain ⟨hlow, hhigh⟩ := Char.isDigit_iff_toNat.1 (Bool.of_not_eq_false hdigit)
  have hrange : c.toNat ∈ List.range' 48 10 :=
    List.mem_range'_1.2 ⟨hlow, Nat.lt_succ_of_le hhigh⟩
  have hall : ∀ n ∈ List.range' 48 10, (Char.ofNat n).isAlpha = false := by decide
  have hc := hall c.toNat hrange
  rw [Char.ofNat_toNat, h] at hc
  exact absurd hc nofun

theorem isWord_of_isAlpha {c : Char} (h : c.isAlpha = true) : isWord c = true := by
  rw [isWord, h]
  rfl

theorem forall_ne_of_isWord {c : Char} (h : isWord c = true) (others : List Char)
    (hothers : others.all (fun k => !isWord k) = true) : ∀ k ∈ others, c ≠ k := by
  rintro k hk rfl
  have hc := List.all_eq_true.1 hothers c hk
  rw [h] at hc
  exact absurd hc nofun

theorem isCommandWord_of_isWord (c : Char) (h : isWord c = true) : isCommandWord c = true := by
  have hne := forall_ne_of_isWord h [' ', '\t', '\r', '\n', '[', ']', '/'] (by decide)
  simpa [isCommandWord, isBlank, and_assoc] using hne

theorem isSource_of_isWord (c : Char) (h : isWord c = true) : isSource c = true := by
  have hne := forall_ne_of_isWord h
    [' ', '\t', '\r', '\n', ':', '"', '=', '|', ',', '[', ']', '/'] (by decide)
  simpa [isSource, isBlank, and_assoc] using hne

theorem isPolicy_of_isWord (c : Char) (h : isWord c = true) : isPolicy c = true := by
  have hne := forall_ne_of_isWord h
    [' ', '\t', '\r', '\n', '\\', '/', '?', '"', '<', '>', '|', ',', '#', ':'] (by decide)
  simpa [isPolicy, isBlank, and_assoc] using hne

theorem isWildcardWord_of_isWord (c : Char) (h : isWord c = true) : isWildcardWord c = true := by
  rw [isWildcardWord, h, Bool.true_or]

end CharClass

/-! ## Scanners -/

namespace Scan

theorem leading_le_of_imp {p q : Char → Bool} (h : ∀ c, p c = true → q c = true)
    (cs : List Char) : leading p cs ≤ leading q cs := by
  induction cs with
  | nil => exact Nat.le_refl _
  | cons c cs ih =>
    cases hc : p c with
    | false =>
      rw [leading_cons_of_neg hc]
      exact Nat.zero_le _
    | true =>
      rw [leading_cons_of_pos hc, leading_cons_of_pos (h c hc)]
      exact Nat.succ_le_succ ih

theorem leading_le_unquotedSource (cs : List Char) : leading isWord cs ≤ unquotedSource cs := by
  induction cs with
  | nil => exact Nat.le_refl _
  | cons c cs ih =>
    cases hc : isWord c with
    | false =>
      rw [leading_cons_of_neg hc]
      exact Nat.zero_le _
    | true =>
      have hslash : c ≠ '/' := forall_ne_of_isWord hc ['/'] (by decide) '/' List.mem_cons_self
      have hpiece : sourcePiece ([c] ++ cs) = 1 := by
        rw [List.singleton_append, sourcePiece_of_ne hslash, if_pos (isSource_of_isWord c hc)]
      have hpieces : unquotedSource (c :: cs) = 1 + unquotedSource cs :=
        pieces_append (List.cons_ne_nil c []) hpiece
      rw [leading_cons_of_pos hc, hpieces]
      omega

theorem leading_le_policyName (cs : List Char) : leading isWord cs ≤ policyName cs := by
  have hhead := leading_le_of_imp isPolicy_of_isWord cs
  rw [policyName]
  dsimp only
  split
  · split <;> omega
  · exact hhead

theorem word_of_opens {opens body : Char → Bool} {c : Char} (h : opens c = true)
    (cs : List Char) : word opens body (c :: cs) = 1 + leading body cs :=
  if_pos h

/-- A fixed text is shared as a whole exactly if it is spelled, up to what `f` ignores. -/
theorem shared_eq_length_iff {α : Type} [DecidableEq α] (f : Char → α) (text cs : List Char) :
    shared (fun c d => f c == f d) text cs = text.length ↔
      (cs.take text.length).map f = text.map f := by
  induction text generalizing cs with
  | nil => simp
  | cons c text ih =>
    cases cs with
    | nil => simp
    | cons d cs =>
      rw [shared_cons_cons, List.length_cons, List.take_succ_cons, List.map_cons, List.map_cons,
        List.cons.injEq, ← ih cs]
      by_cases h : f c = f d
      · simp [h]
      · simp [h, Ne.symm h]

/-- What a fixed text takes is its spelling, up to what `f` ignores. -/
theorem map_take_fixed {α : Type} [DecidableEq α] (f : Char → α) {text cs : List Char}
    (h : 0 < fixed (fun c d => f c == f d) text cs) :
    (cs.take (fixed (fun c d => f c == f d) text cs)).map f = text.map f := by
  unfold fixed at h ⊢
  split_ifs at h ⊢ with hall
  · exact (shared_eq_length_iff f text cs).1 hall
  · exact absurd h (Nat.lt_irrefl 0)

end Scan

/-! ## Recognizers -/

namespace Recognizer

/-- The word that a recognizer takes, if it takes only one. -/
def keyword? : Recognizer → Option (List Char)
  | .keyword word => some word
  | _ => none

/-- Whether a text is the only word a recognizer takes, whatever the case of its letters. -/
def isSpelled (r : Recognizer) (text : List Char) : Bool :=
  r.keyword?.map Text.lower == some (Text.lower text)

/-- Whether a recognizer takes any word. -/
def takesWords : Recognizer → Bool
  | .unknownCommand | .unquotedSource | .unquotedIdentifier | .idPattern | .policyName => true
  | _ => false

/-- Whether a recognizer takes no text that begins with a letter. -/
def sparesLetters : Recognizer → Bool
  | .literal text => text.head?.all fun c => !c.isAlpha
  | .lineComment | .blockComment | .whitespace | .quotedString | .integer | .decimal
  | .parameter | .quotedIdentifier => true
  | _ => false

/-- No recognizer takes one word only and any word. -/
theorem keyword?_eq_none {r : Recognizer} (h : r.takesWords = true) : r.keyword? = none := by
  cases r with
  | keyword word => exact absurd h Bool.false_ne_true
  | _ => rfl

theorem steady_of_takesWords {r : Recognizer} (h : r.takesWords = true) :
    Scan.Steady r.matchLength := by
  refine steady ?_
  rintro rfl
  exact absurd h Bool.false_ne_true

section Letters

variable {r : Recognizer} {c : Char} (hletter : c.isAlpha = true) (cs : List Char)
include hletter

/-- A word recognizer takes no less than the letters, digits and underscores at the beginning. -/
theorem leading_le_matchLength (h : r.takesWords = true) :
    Scan.leading isWord (c :: cs) ≤ r.matchLength (c :: cs) := by
  have hword := isWord_of_isAlpha hletter
  cases r with
  | unknownCommand => exact Scan.leading_le_of_imp isCommandWord_of_isWord _
  | unquotedSource => exact Scan.leading_le_unquotedSource _
  | policyName => exact Scan.leading_le_policyName _
  | unquotedIdentifier =>
    rw [matchLength, Scan.unquotedIdentifier, Scan.word_of_opens hletter,
      Scan.leading_cons_of_pos hword]
    omega
  | idPattern =>
    have hpattern : Scan.unquotedPattern (c :: cs) = 1 + Scan.leading isWildcardWord cs :=
      Scan.word_of_opens (by rw [hletter]; rfl) cs
    have hfirst : Scan.unquotedPattern (c :: cs) ≤ Scan.patternPiece (c :: cs) :=
      Nat.le_max_left _ _
    have hmore := Scan.leading_le_of_imp isWildcardWord_of_isWord cs
    rw [matchLength, Scan.idPattern, Scan.pieces_of_pos (List.cons_ne_nil _ _) (by omega),
      Scan.leading_cons_of_pos hword]
    omega
  | _ => exact absurd h Bool.false_ne_true

theorem matchLength_eq_zero_of_letter (h : r.sparesLetters = true) :
    r.matchLength (c :: cs) = 0 := by
  have hne : ∀ k, k.isAlpha = false → c ≠ k := fun k => ne_of_isAlpha hletter
  have hdigit := isDigit_of_isAlpha hletter
  cases r with
  | literal text =>
    have hhead : ∀ k ∈ text.head?, k.isAlpha = false := by
      simpa [sparesLetters, Option.all_eq_true] using h
    exact Scan.fixed_of_head (fun k hk => beq_false_of_ne (hne k (hhead k hk)).symm) cs
  | lineComment => simp [matchLength, Scan.lineComment, hne '/' rfl]
  | blockComment => simp [matchLength, Scan.blockComment, hne '/' rfl]
  | whitespace =>
    refine Scan.leading_cons_of_neg ?_ cs
    simp [isBlank, hne ' ' rfl, hne '\t' rfl, hne '\r' rfl, hne '\n' rfl]
  | quotedString =>
    simp [matchLength, Scan.quotedString, Scan.simpleString, Scan.tripleString, hne '"' rfl]
  | integer => exact Scan.leading_cons_of_neg hdigit cs
  | decimal =>
    have hwhole : Scan.digits (c :: cs) = 0 := Scan.leading_cons_of_neg hdigit cs
    simp [matchLength, Scan.decimal, hwhole, hne '.' rfl]
  | parameter => simp [matchLength, Scan.parameter, hne '?' rfl]
  | quotedIdentifier => simp [matchLength, Scan.quotedIdentifier, hne '\x60' rfl]
  | _ => exact absurd h Bool.false_ne_true

end Letters

/-! ## Keywords -/

section Keywords

variable {r : Recognizer} {word cs : List Char} (hr : r.keyword? = some word)
include hr

/-- A keyword takes a beginning exactly if that spells it. -/
theorem matchLength_eq_iff_of_keyword {n : Nat} (hpos : 0 < n) (hn : n ≤ cs.length) :
    r.matchLength cs = n ↔ r.isSpelled (cs.take n) = true := by
  cases r with
  | keyword word =>
    have hspelled : (keyword word).isSpelled (cs.take n) = true ↔
        Text.lower (cs.take n) = Text.lower word := by
      rw [isSpelled, keyword?, Option.map_some, beq_iff_eq, Option.some.injEq, eq_comm]
    rw [hspelled, matchLength, Scan.fixed]
    constructor
    · intro h
      split_ifs at h with hall
      · rw [← h]
        exact (Scan.shared_eq_length_iff Char.toLower word cs).1 hall
      · omega
    · intro h
      have hlen := congrArg List.length h
      rw [Text.length_lower, Text.length_lower, List.length_take, Nat.min_eq_left hn] at hlen
      subst hlen
      have hall : Scan.shared sameLetter word cs = word.length :=
        (Scan.shared_eq_length_iff Char.toLower word cs).2 h
      rw [if_pos hall]
  | _ => exact absurd hr (Option.some_ne_none word).symm

/-- A keyword takes word characters only. -/
theorem matchLength_le_of_keyword (hword : word.all isWord = true) :
    r.matchLength cs ≤ Scan.leading isWord cs := by
  rcases Nat.eq_zero_or_pos (r.matchLength cs) with hzero | hpos
  · rw [hzero]
    exact Nat.zero_le _
  · have hle := r.matchLength_le_length cs
    have hspelled := (matchLength_eq_iff_of_keyword hr hpos hle).1 rfl
    rw [isSpelled, hr, Option.map_some, beq_iff_eq, Option.some.injEq] at hspelled
    have hblind : CaseBlind isWord := caseBlind_of_capitals (by decide)
    have hclass : ∀ c ∈ cs.take (r.matchLength cs), isWord c = true := by
      intro c hc
      have hlower : c.toLower ∈ Text.lower word := hspelled ▸ List.mem_map_of_mem hc
      obtain ⟨d, hd, hsame⟩ := List.mem_map.1 hlower
      rw [← hblind c, ← hsame, hblind d]
      exact List.all_eq_true.1 hword d hd
    have hrun := Scan.leading_append_of_all hclass (cs.drop (r.matchLength cs))
    rw [List.take_append_drop, List.length_take, Nat.min_eq_left hle] at hrun
    omega

end Keywords

end Recognizer

end PipeQuery
