-- SUMMARY: What a recognizer accepts of a text does not depend on the case of its letters.
import PipeQuery.Proofs.Recognizer.Comment
import PipeQuery.Proofs.Recognizer.Length
import PipeQuery.Proofs.Text.LetterCase

/-! # Letter Case of Patterns

Scanners look at characters through classes and marks. The classes hold both cases of a
letter or neither, and marks are no letters, so a scanner takes of a text in lower case as
much as of the text. Of the fixed texts only keywords have letters, and they compare
without regard to case. -/

namespace PipeQuery

namespace Scan

open CharClass Text

/-- Whether a scanner is blind to the case of letters. -/
def Blind {α : Type} (scan : List Char → α) : Prop :=
  ∀ cs, scan (lower cs) = scan cs

/-! ## Runs, Pieces and Fixed Texts -/

theorem blind_leading {p : Char → Bool} (hp : CaseBlind p) : Blind (leading p) := by
  intro cs
  induction cs with
  | nil => rfl
  | cons c cs ih =>
    rw [lower_cons]
    cases h : p c with
    | false => rw [leading_cons_of_neg h, leading_cons_of_neg (by rwa [hp c])]
    | true => rw [leading_cons_of_pos h, leading_cons_of_pos (by rwa [hp c]), ih]

theorem blind_pieces {piece : List Char → Nat} (hpiece : Blind piece) : Blind (pieces piece) := by
  intro cs
  suffices h : ∀ pending taken,
      piecesFrom piece (lower cs) pending taken = piecesFrom piece cs pending taken from h 0 0
  induction cs with
  | nil => exact fun _ _ => rfl
  | cons c cs ih =>
    intro pending taken
    cases pending with
    | succ pending => exact ih pending taken
    | zero =>
      have hfirst : piece (c.toLower :: lower cs) = piece (c :: cs) := hpiece (c :: cs)
      rw [lower_cons, piecesFrom, piecesFrom, hfirst]
      cases piece (c :: cs) with
      | zero => rfl
      | succ n => exact ih n _

theorem blind_shared {same : Char → Char → Bool} {text : List Char}
    (h : ∀ c ∈ text, CaseBlind (same c)) : Blind (shared same text) := by
  intro cs
  induction text generalizing cs with
  | nil => simp
  | cons c text ih =>
    obtain ⟨hc, htext⟩ := List.forall_mem_cons.1 h
    cases cs with
    | nil => rfl
    | cons d cs => rw [lower_cons, shared_cons_cons, shared_cons_cons, hc d, ih htext]

theorem blind_fixed {same : Char → Char → Bool} {text : List Char}
    (h : ∀ c ∈ text, CaseBlind (same c)) : Blind (fixed same text) := by
  intro cs
  rw [fixed, fixed, blind_shared h cs]

/-! ## Comments -/

theorem blind_lineComment : Blind lineComment := by
  intro cs
  fun_cases lineComment cs with
  | case1 cs => simp [lineComment, blind_leading caseBlind_isLineEnd.not cs]
  | case2 cs hother =>
    refine lineComment.eq_2 _ fun ds hds => ?_
    obtain ⟨es, rfl, -⟩ := eq_append_of_lower_eq ['/', '/'] (by decide) hds
    exact hother es rfl

theorem blind_bodyLength? : Blind Comment.bodyLength? := by
  have hends : Blind Comment.ends := by
    intro cs
    induction cs with
    | nil => rfl
    | cons c cs ih =>
      have hlast : Comment.endWith c.toLower (lower cs).head? (Comment.ends cs) =
          Comment.endWith c cs.head? (Comment.ends cs) := by
        simp [Comment.endWith, toLower_eq_iff (k := '*') rfl, toLower_eq_iff (k := '/') rfl,
          head?_lower_eq_iff (k := '*') rfl, head?_lower_eq_iff (k := '/') rfl]
      rw [lower_cons, Comment.ends_cons, Comment.ends_cons, ih, hlast]
  intro cs
  rw [Comment.bodyLength?, Comment.bodyLength?, hends cs, length_lower]

theorem blind_blockComment : Blind blockComment := by
  intro cs
  fun_cases blockComment cs with
  | case1 cs body hbody => simp [blockComment, blind_bodyLength? cs, hbody]
  | case2 cs hnone => simp [blockComment, blind_bodyLength? cs, hnone]
  | case3 cs hother =>
    refine blockComment.eq_2 _ fun ds hds => ?_
    obtain ⟨es, rfl, -⟩ := eq_append_of_lower_eq ['/', '*'] (by decide) hds
    exact hother es rfl

/-! ## Sources and Policies -/

theorem blind_sourcePiece : Blind sourcePiece := by
  intro cs
  cases cs with
  | nil => rfl
  | cons c cs =>
    by_cases hc : c = '/'
    · subst hc
      cases cs with
      | nil => rfl
      | cons d cs => simp [toLower_eq_iff (k := '*') rfl, toLower_eq_iff (k := '/') rfl]
    · have hlower : c.toLower ≠ '/' := toLower_ne rfl hc
      have hclass : isSource c.toLower = isSource c := caseBlind_of_capitals (by decide) c
      rw [lower_cons, sourcePiece_of_ne hc, sourcePiece_of_ne hlower, hclass]

theorem blind_isPolicy : CaseBlind isPolicy :=
  caseBlind_of_capitals (by decide)

theorem blind_policyName : Blind policyName := by
  intro cs
  rw [policyName, policyName, blind_leading blind_isPolicy cs, lower_drop]
  generalize cs.drop (leading isPolicy cs) = rest
  cases rest with
  | nil => rfl
  | cons c rest =>
    by_cases hc : c = ':'
    · subst hc
      simp [blind_leading blind_isPolicy rest]
    · have hlower : c.toLower ≠ ':' := toLower_ne rfl hc
      simp [hc, hlower]

/-! ## Strings -/

theorem blind_stringPiece : Blind stringPiece := by
  intro cs
  cases cs with
  | nil => rfl
  | cons c cs =>
    by_cases hc : c = '\\'
    · subst hc
      cases cs with
      | nil => rfl
      | cons d cs =>
        have hescaped : isEscaped d.toLower = isEscaped d := caseBlind_of_capitals (by decide) d
        simp [hescaped]
    · have hlower : c.toLower ≠ '\\' := toLower_ne rfl hc
      rw [lower_cons, stringPiece_of_ne hc, stringPiece_of_ne hlower]
      simp [caseBlind_isLineEnd c, toLower_eq_iff (k := '"') rfl]

theorem blind_simpleString : Blind simpleString := by
  intro cs
  cases cs with
  | nil => rfl
  | cons c cs =>
    by_cases hc : c = '"'
    · subst hc
      have hclosed : (lower (cs.drop (pieces stringPiece cs))).head? = some '"' ↔
          (cs.drop (pieces stringPiece cs)).head? = some '"' := head?_lower_eq_iff rfl _
      rw [lower_cons, (toLower_eq_iff rfl).2 rfl, simpleString_quote, simpleString_quote,
        blind_pieces blind_stringPiece cs, lower_drop]
      simp [hclosed]
    · have hlower : c.toLower ≠ '"' := toLower_ne rfl hc
      simp [simpleString, hc, hlower]

theorem blind_beforeTriple (count : Nat) : Blind (beforeTriple count) := by
  intro cs
  induction cs generalizing count with
  | nil => rfl
  | cons c cs ih =>
    have hmarks : ['"', '"', '"'].isPrefixOf (c.toLower :: lower cs) =
        ['"', '"', '"'].isPrefixOf (c :: cs) := isPrefixOf_lower (by decide) (c :: cs)
    rw [lower_cons, beforeTriple, beforeTriple, hmarks, ih]

theorem blind_tripleString : Blind tripleString := by
  intro cs
  have hline : ∀ cs : List Char, beforeTriple 0 ((lower cs).takeWhile fun c => !isLineEnd c) =
      beforeTriple 0 (cs.takeWhile fun c => !isLineEnd c) := by
    intro cs
    rw [lower_takeWhile caseBlind_isLineEnd.not, blind_beforeTriple 0 _]
  fun_cases tripleString cs with
  | case1 cs body hbody =>
    have hmarks := blind_leading (caseBlind_beq (k := '"') rfl) (cs.drop (body + 3))
    simp [tripleString_marks, hline, hbody, lower_drop, hmarks]
  | case2 cs hnone => simp [tripleString_marks, hline, hnone]
  | case3 cs hother =>
    refine tripleString.eq_2 _ fun ds hds => ?_
    obtain ⟨es, rfl, -⟩ := eq_append_of_lower_eq ['"', '"', '"'] (by decide) hds
    exact hother es rfl

theorem blind_quotedString : Blind quotedString := by
  intro cs
  rw [quotedString, quotedString, blind_simpleString cs, blind_tripleString cs]

/-! ## Numbers -/

theorem blind_digits : Blind digits :=
  blind_leading (caseBlind_of_capitals (by decide))

theorem blind_sign : Blind sign := by
  intro cs
  cases cs with
  | nil => rfl
  | cons c cs => simp [sign, toLower_eq_iff (k := '+') rfl, toLower_eq_iff (k := '-') rfl]

theorem blind_exponent : Blind exponent := by
  intro cs
  cases cs with
  | nil => rfl
  | cons c cs =>
    have hblind : CaseBlind fun c : Char => decide (c = 'e' ∨ c = 'E') :=
      caseBlind_of_capitals (by decide)
    have hmark : (c.toLower = 'e' ∨ c.toLower = 'E') ↔ (c = 'e' ∨ c = 'E') :=
      decide_eq_decide.1 (hblind c)
    simp only [lower_cons, exponent, hmark, blind_sign cs, lower_drop, blind_digits _]

theorem blind_decimal : Blind decimal := by
  intro cs
  rw [decimal, decimal, blind_digits cs, lower_drop]
  generalize cs.drop (digits cs) = rest
  cases rest with
  | nil => rfl
  | cons c rest =>
    by_cases hc : c = '.'
    · subst hc
      simp [blind_digits rest, lower_drop, blind_exponent _]
    · have hlower : c.toLower ≠ '.' := toLower_ne rfl hc
      have hexponent : exponent (c.toLower :: lower rest) = exponent (c :: rest) :=
        blind_exponent (c :: rest)
      simp [hc, hlower, hexponent]

/-! ## Names -/

theorem blind_parameter : Blind parameter := by
  intro cs
  match cs with
  | [] => rfl
  | [c] =>
    by_cases hc : c = '?'
    · subst hc
      rfl
    · simp [parameter]
  | c :: d :: cs =>
    by_cases hc : c = '?'
    · subst hc
      have halpha : d.toLower.isAlpha = d.isAlpha := caseBlind_of_capitals (by decide) d
      have hdigit : d.toLower.isDigit = d.isDigit := caseBlind_of_capitals (by decide) d
      have hword : leading isWord (lower cs) = leading isWord cs :=
        blind_leading (caseBlind_of_capitals (by decide)) cs
      simp [parameter, halpha, hdigit, hword, blind_digits cs]
    · have hlower : c.toLower ≠ '?' := toLower_ne rfl hc
      simp [parameter, hc, hlower]

theorem blind_word {opens body : Char → Bool} (hopens : CaseBlind opens) (hbody : CaseBlind body) :
    Blind (word opens body) := by
  intro cs
  cases cs with
  | nil => rfl
  | cons c cs =>
    simp [word, hopens c, blind_leading hbody cs, toLower_eq_iff (k := '_') rfl,
      toLower_eq_iff (k := '@') rfl]

theorem blind_quotedIdentifierFrom (passed accepted : Nat) :
    Blind (quotedIdentifierFrom passed accepted) := by
  intro cs
  fun_induction quotedIdentifierFrom passed accepted cs with
  | case1 passed accepted cs ih => simpa [quotedIdentifierFrom] using ih
  | case2 passed accepted cs hlone hpassed | case3 passed accepted cs hlone hpassed =>
    cases cs with
    | nil => simp [quotedIdentifierFrom, hpassed]
    | cons d cs =>
      have hd : d.toLower ≠ '\x60' := toLower_ne rfl fun h => hlone cs (by rw [h])
      simp [quotedIdentifierFrom, hd, hpassed]
  | case4 passed accepted c cs hpair hc ih =>
    have hlower : c.toLower ≠ '\x60' := toLower_ne rfl hc
    rw [lower_cons, quotedIdentifierFrom_of_ne hlower, ih]
  | case5 => rfl

theorem blind_quotedIdentifier : Blind quotedIdentifier := by
  intro cs
  cases cs with
  | nil => rfl
  | cons c cs =>
    by_cases hc : c = '\x60'
    · subst hc
      exact blind_quotedIdentifierFrom 1 0 cs
    · have hlower : c.toLower ≠ '\x60' := toLower_ne rfl hc
      simp [quotedIdentifier, hc, hlower]

theorem blind_patternPiece : Blind patternPiece := by
  intro cs
  have hword : Blind unquotedPattern :=
    blind_word (caseBlind_of_capitals (by decide)) (caseBlind_of_capitals (by decide))
  rw [patternPiece, patternPiece, hword cs, blind_quotedIdentifier cs]

end Scan

/-! ## Recognizers -/

namespace Recognizer

/-- Whether a recognizer asks for no letter in one case only. -/
def ignoresCase : Recognizer → Bool
  | .literal text => text.all fun c => !c.isAlpha
  | _ => true

/-- Such a recognizer takes as much of a text in lower case as of the text. -/
theorem matchLength_lower {r : Recognizer} (h : r.ignoresCase = true) (cs : List Char) :
    r.matchLength (Text.lower cs) = r.matchLength cs := by
  cases r with
  | literal text =>
    refine Scan.blind_fixed ?_ cs
    intro c hc
    exact caseBlind_beq_left (by simpa using List.all_eq_true.1 h c hc)
  | keyword word =>
    refine Scan.blind_fixed ?_ cs
    intro c hc d
    rw [CharClass.sameLetter, CharClass.sameLetter, toLower_toLower]
  | lineComment => exact Scan.blind_lineComment cs
  | blockComment => exact Scan.blind_blockComment cs
  | whitespace | unknownCommand | integer | setting =>
    exact Scan.blind_leading (caseBlind_of_capitals (by decide)) cs
  | unquotedSource => exact Scan.blind_pieces Scan.blind_sourcePiece cs
  | quotedString => exact Scan.blind_quotedString cs
  | decimal => exact Scan.blind_decimal cs
  | parameter => exact Scan.blind_parameter cs
  | unquotedIdentifier =>
    exact Scan.blind_word (caseBlind_of_capitals (by decide)) (caseBlind_of_capitals (by decide)) cs
  | quotedIdentifier => exact Scan.blind_quotedIdentifier cs
  | idPattern => exact Scan.blind_pieces Scan.blind_patternPiece cs
  | policyName => exact Scan.blind_policyName cs

end Recognizer

end PipeQuery
