-- SUMMARY: What a recognizer takes of a text with a closing bracket behind it.
import PipeQuery.Proofs.Recognizer.Comment
import PipeQuery.Proofs.Recognizer.Length

/-! # Brackets Behind a Text

A closing bracket ends almost every pattern: it belongs to no name, number or word, and it
closes no string and no block comment. A scanner that ends there takes as much of a text as
before. The others are line comments, policy names and paths. Where they take the bracket
in, they have taken all of the text before it. -/

namespace PipeQuery

namespace Scan

open CharClass

/-- Whether a scanner finds the same with a closing bracket behind the text. -/
def Stops {α : Type} (scan : List Char → α) : Prop :=
  ∀ cs, scan (cs ++ [']']) = scan cs

theorem drop_bracket {n : Nat} {cs : List Char} (h : n ≤ cs.length) :
    (cs ++ [']']).drop n = cs.drop n ++ [']'] :=
  List.drop_append_of_le_length h

/-- A bracket behind a text is no other mark that the text might lack. -/
theorem head?_bracket_iff {k : Char} (hk : k ≠ ']') {cs : List Char} :
    (cs ++ [']']).head? = some k ↔ cs.head? = some k := by
  cases cs with
  | nil => simp [hk.symm]
  | cons c cs => rfl

/-! ## Runs and Fixed Texts -/

theorem leading_bracket (p : Char → Bool) (cs : List Char) :
    leading p (cs ++ [']']) = leading p cs ∨
      leading p cs = cs.length ∧ leading p (cs ++ [']']) = cs.length + 1 := by
  induction cs with
  | nil =>
    cases h : p ']' with
    | false => exact .inl (leading_cons_of_neg h [])
    | true => exact .inr ⟨rfl, leading_cons_of_pos h []⟩
  | cons c cs ih =>
    rw [List.cons_append, List.length_cons]
    cases h : p c with
    | false => exact .inl (by rw [leading_cons_of_neg h, leading_cons_of_neg h])
    | true =>
      rw [leading_cons_of_pos h, leading_cons_of_pos h]
      omega

theorem stops_leading {p : Char → Bool} (hp : p ']' = false) : Stops (leading p) := by
  intro cs
  induction cs with
  | nil => exact leading_cons_of_neg hp []
  | cons c cs ih =>
    rw [List.cons_append]
    cases h : p c with
    | false => rw [leading_cons_of_neg h, leading_cons_of_neg h]
    | true => rw [leading_cons_of_pos h, leading_cons_of_pos h, ih]

section Fixed

variable {same : Char → Char → Bool} {text : List Char}

theorem stops_shared (h : ∀ c ∈ text, same c ']' = false) : Stops (shared same text) := by
  intro cs
  induction text generalizing cs with
  | nil => simp
  | cons c text ih =>
    obtain ⟨hc, htext⟩ := List.forall_mem_cons.1 h
    cases cs with
    | nil => simp [shared_cons_cons, hc]
    | cons d cs => rw [List.cons_append, shared_cons_cons, shared_cons_cons, ih htext]

/-- A fixed text may be a bracket, but it has none behind its beginning. -/
theorem fixed_bracket (h : ∀ c ∈ text.tail, same c ']' = false) {cs : List Char} (hne : cs ≠ []) :
    fixed same text (cs ++ [']']) = fixed same text cs := by
  obtain ⟨d, cs, rfl⟩ := List.exists_cons_of_ne_nil hne
  cases text with
  | nil => simp [fixed]
  | cons c text =>
    have htail : ∀ e ∈ text, same e ']' = false := h
    rw [List.cons_append, fixed, fixed, shared_cons_cons, shared_cons_cons, stops_shared htail cs]

end Fixed

/-! ## Pieces -/

section Pieces

variable {piece : List Char → Nat} (hle : ∀ cs, piece cs ≤ cs.length)
  (hsame : ∀ cs, cs ≠ [] → piece (cs ++ [']']) = piece cs)

include hle hsame

/-- Where the last piece ends with the text, the bracket may begin another one. -/
theorem pieces_bracket (cs : List Char) :
    pieces piece (cs ++ [']']) =
      pieces piece cs + if pieces piece cs = cs.length then pieces piece [']'] else 0 := by
  induction cs using pieces_induction piece with
  | stop cs hstop =>
    by_cases hne : cs = []
    · simp [hne]
    · have hzero : piece cs = 0 := hstop.resolve_left hne
      have hlen := List.length_pos_iff.2 hne
      rw [pieces_of_zero hzero, pieces_of_zero ((hsame cs hne).trans hzero), if_neg hlen.ne]
  | step cs hne hpos ih =>
    have hfirst := hsame cs hne
    have hlen := hle cs
    rw [pieces_of_pos (List.append_ne_nil_of_left_ne_nil hne _) (hfirst ▸ hpos), hfirst,
      drop_bracket hlen, ih, pieces_of_pos hne hpos, List.length_drop, Nat.add_assoc]
    congr 2
    exact if_congr (by omega) rfl rfl

theorem stops_pieces (hbracket : piece [']'] = 0) : Stops (pieces piece) := by
  intro cs
  rw [pieces_bracket hle hsame cs, pieces_of_zero hbracket]
  simp

end Pieces

/-! ## Comments -/

theorem lineComment_bracket (cs : List Char) :
    lineComment (cs ++ [']']) = lineComment cs ∨
      (∃ ds, cs = '/' :: '/' :: ds) ∧ lineComment cs = cs.length ∧
        lineComment (cs ++ [']']) = cs.length + 1 := by
  match cs with
  | [] => exact .inl rfl
  | [c] => exact .inl (by simp [lineComment])
  | c :: d :: cs =>
    by_cases hslashes : c = '/' ∧ d = '/'
    · obtain ⟨rfl, rfl⟩ := hslashes
      rw [List.cons_append, List.cons_append, lineComment, lineComment, List.length_cons,
        List.length_cons]
      rcases leading_bracket (fun c => !isLineEnd c) cs with hline | ⟨hline, hline'⟩
      · exact .inl (by rw [hline])
      · exact .inr ⟨⟨cs, rfl⟩, by omega, by omega⟩
    · have hnone : ∀ es, lineComment (c :: d :: es) = 0 := fun es =>
        lineComment.eq_2 _ fun ds hds => by simp_all
      exact .inl (by rw [List.cons_append, List.cons_append, hnone, hnone])

theorem stops_bodyLength? : Stops Comment.bodyLength? := by
  have hremains : ∀ cs, Comment.remains? (cs ++ [']']) = (Comment.remains? cs).map (· + 1) := by
    intro cs
    induction hn : cs.length using Nat.strongRecOn generalizing cs with
    | ind n ih =>
      match cs, hn with
      | [], _ => decide
      | c :: cs, hn =>
        have hrest : Comment.remains? (cs ++ [']']) = (Comment.remains? cs).map (· + 1) :=
          ih cs.length (by simp [← hn]) cs rfl
        by_cases hclose : c = '*' ∧ cs.head? = some '/'
        · obtain ⟨rfl, hslash⟩ := hclose
          obtain ⟨cs, rfl⟩ := List.head?_eq_some_iff.1 hslash
          simp [Comment.remains?_close]
        · by_cases hopen : c = '/' ∧ cs.head? = some '*'
          · obtain ⟨rfl, hstar⟩ := hopen
            obtain ⟨cs, rfl⟩ := List.head?_eq_some_iff.1 hstar
            rw [List.cons_append] at hrest
            have hinner : Comment.remains? (cs ++ [']']) = (Comment.remains? cs).map (· + 1) :=
              ih cs.length (by rw [← hn, List.length_cons, List.length_cons]; omega) cs rfl
            rw [List.cons_append, List.cons_append, Comment.remains?_open, Comment.remains?_open,
              hrest, hinner]
            -- What remains behind the comment inside has the bracket at its end as well.
            cases hk : Comment.remains? cs with
            | none => rfl
            | some k =>
              have hshorter : (cs.drop (cs.length - k)).length < n := by
                rw [← hn, List.length_drop, List.length_cons, List.length_cons]
                omega
              have houter := ih _ hshorter _ rfl
              have hdrop : (cs ++ [']']).drop ((cs ++ [']']).length - (k + 1)) =
                  cs.drop (cs.length - k) ++ [']'] := by
                rw [List.length_append, List.length_singleton, Nat.add_sub_add_right]
                exact drop_bracket (Nat.sub_le _ _)
              simp only [Option.map_some, Option.bind_some, hdrop, houter]
              cases Comment.remains? (cs.drop (cs.length - k)) <;> rfl
          · rw [List.cons_append, Comment.remains?_plain (by rwa [head?_bracket_iff (by decide)])
              (by rwa [head?_bracket_iff (by decide)]), Comment.remains?_plain hclose hopen, hrest]
  intro cs
  rw [Comment.bodyLength?_eq, Comment.bodyLength?_eq, hremains, Option.map_map]
  simp [Function.comp_def]

theorem stops_blockComment : Stops blockComment := by
  intro cs
  match cs with
  | [] => rfl
  | [c] => simp [blockComment]
  | c :: d :: cs =>
    by_cases hmarks : c = '/' ∧ d = '*'
    · obtain ⟨rfl, rfl⟩ := hmarks
      rw [List.cons_append, List.cons_append, blockComment, blockComment, stops_bodyLength? cs]
    · have hnone : ∀ es, blockComment (c :: d :: es) = 0 := fun es =>
        blockComment.eq_2 _ fun ds hds => by simp_all
      rw [List.cons_append, List.cons_append, hnone, hnone]

/-! ## Sources and Policies -/

theorem sourcePiece_bracket {cs : List Char} (hne : cs ≠ []) (hslash : cs ≠ ['/']) :
    sourcePiece (cs ++ [']']) = sourcePiece cs := by
  obtain ⟨c, cs, rfl⟩ := List.exists_cons_of_ne_nil hne
  by_cases hc : c = '/'
  · subst hc
    cases cs with
    | nil => exact absurd rfl hslash
    | cons d cs => rfl
  · rw [List.cons_append, sourcePiece_of_ne hc, sourcePiece_of_ne hc]

/-- A path takes the bracket in if a slash is left that it could not end with. -/
theorem unquotedSource_bracket (cs : List Char) :
    unquotedSource (cs ++ [']']) = unquotedSource cs ∨
      (∃ path, cs = path ++ ['/'] ∧ unquotedSource cs = path.length) ∧
        unquotedSource (cs ++ [']']) = cs.length + 1 := by
  unfold unquotedSource
  induction cs using pieces_induction sourcePiece with
  | stop cs hstop =>
    by_cases hne : cs = []
    · exact .inl (by rw [hne]; rfl)
    · by_cases hslash : cs = ['/']
      · subst hslash
        exact .inr ⟨⟨[], rfl, rfl⟩, rfl⟩
      · have hzero : sourcePiece cs = 0 := hstop.resolve_left hne
        have hzero' := (sourcePiece_bracket hne hslash).trans hzero
        exact .inl (by rw [pieces_of_zero hzero, pieces_of_zero hzero'])
  | step cs hne hpos ih =>
    have hslash : cs ≠ ['/'] := by
      rintro rfl
      exact absurd hpos (Nat.lt_irrefl _)
    have hfirst := sourcePiece_bracket hne hslash
    have hlen := (settled_sourcePiece cs).1
    rw [pieces_of_pos (List.append_ne_nil_of_left_ne_nil hne _) (hfirst ▸ hpos), hfirst,
      drop_bracket hlen, pieces_of_pos hne hpos]
    -- Only a slash that was left over at the end takes the bracket in.
    rcases ih with hsame | ⟨⟨path, hpath, htaken⟩, htaken'⟩
    · exact .inl (by rw [hsame])
    · refine .inr ⟨⟨cs.take (sourcePiece cs) ++ path, ?_, ?_⟩, ?_⟩
      · rw [List.append_assoc, ← hpath, List.take_append_drop]
      · rw [List.length_append, List.length_take, Nat.min_eq_left hlen, htaken]
      · rw [htaken', List.length_drop]
        omega

theorem policyName_bracket (cs : List Char) :
    policyName (cs ++ [']']) = policyName cs ∨
      '|' ∉ cs ∧ policyName (cs ++ [']']) = cs.length + 1 := by
  have hpipe : ∀ ds : List Char, leading isPolicy ds = ds.length → '|' ∉ ds := by
    intro ds hall hmem
    have hclass := forall_mem_take_leading isPolicy ds '|'
    rw [hall, List.take_length] at hclass
    exact absurd (hclass hmem) (by decide)
  have hhead := leading_le_length isPolicy cs
  -- The name takes the bracket in where it goes up to the end of the text.
  rcases leading_bracket isPolicy cs with hsame | ⟨hall, hall'⟩
  · have hsplit := (List.take_append_drop (leading isPolicy cs) cs).symm
    have hnone : '|' ∉ cs.take (leading isPolicy cs) := fun hmem =>
      absurd (forall_mem_take_leading isPolicy cs _ hmem) (by decide)
    have hlen := congrArg List.length hsplit
    rw [List.length_append, List.length_take, Nat.min_eq_left hhead] at hlen
    rw [policyName, policyName, hsame, drop_bracket hhead]
    generalize cs.drop (leading isPolicy cs) = rest at hsplit hlen
    cases rest with
    | nil => exact .inl rfl
    | cons c rest =>
      by_cases hc : c = ':'
      · subst hc
        rcases leading_bracket isPolicy rest with htail | ⟨htail, htail'⟩
        · exact .inl (by simp [htail])
        · by_cases hempty : leading isPolicy cs = 0
          · exact .inl (by simp [hempty])
          · refine .inr ⟨?_, ?_⟩
            · rw [hsplit]
              simp [hnone, hpipe rest htail]
            · simp [hempty, htail']
              simp at hlen
              omega
      · exact .inl (by simp [hc])
  · refine .inr ⟨hpipe cs hall, ?_⟩
    have hdrop : (cs ++ [']']).drop (cs.length + 1) = [] := by simp
    rw [policyName, hall', hdrop]

/-! ## Strings -/

theorem stringPiece_bracket {cs : List Char} (hne : cs ≠ []) :
    stringPiece (cs ++ [']']) = stringPiece cs := by
  obtain ⟨c, cs, rfl⟩ := List.exists_cons_of_ne_nil hne
  by_cases hc : c = '\\'
  · subst hc
    cases cs <;> rfl
  · rw [List.cons_append, stringPiece_of_ne hc, stringPiece_of_ne hc]

theorem stops_simpleString : Stops simpleString := by
  intro cs
  cases cs with
  | nil => rfl
  | cons c cs =>
    by_cases hc : c = '"'
    · subst hc
      have hle := settled_stringPiece.pieces_le_length cs
      have hpieces := pieces_bracket (fun cs => (settled_stringPiece cs).1)
        (fun _ => stringPiece_bracket) cs
      rw [List.cons_append, simpleString_quote, simpleString_quote, hpieces]
      split
      case isTrue hall =>
        -- The string was open, and stays open behind the bracket.
        have hdrop : (cs ++ [']']).drop (cs.length + 1) = [] := by simp
        have hone : pieces stringPiece [']'] = 1 := rfl
        rw [hone, hall, hdrop, List.drop_length, List.head?_nil, if_neg nofun, if_neg nofun]
      case isFalse => simp only [Nat.add_zero, drop_bracket hle, head?_bracket_iff (by decide : '"' ≠ ']')]
    · simp [simpleString, hc]

theorem stops_beforeTriple (count : Nat) : Stops (beforeTriple count) := by
  intro cs
  induction cs generalizing count with
  | nil => rfl
  | cons c cs ih =>
    have hmarks : ['"', '"', '"'].isPrefixOf (c :: (cs ++ [']'])) =
        ['"', '"', '"'].isPrefixOf (c :: cs) := by
      match cs with
      | [] | [d] | d :: e :: cs => simp [List.isPrefixOf]
    rw [List.cons_append, beforeTriple, beforeTriple, hmarks, ih]

theorem stops_tripleString : Stops tripleString := by
  intro cs
  have hline : ∀ cs : List Char, beforeTriple 0 ((cs ++ [']']).takeWhile fun c => !isLineEnd c) =
      beforeTriple 0 (cs.takeWhile fun c => !isLineEnd c) := by
    intro cs
    rw [List.takeWhile_append]
    split
    case isTrue hall =>
      have hself := List.takeWhile_prefix (fun c => !isLineEnd c) |>.eq_of_length hall
      rw [hself]
      exact stops_beforeTriple 0 cs
    case isFalse => rfl
  match cs with
  -- Fewer than three characters are no opening marks.
  | [] | [c] | [c, d] =>
    rw [tripleString.eq_2 _ (by simp), tripleString.eq_2 _ (by simp)]
  | c :: d :: e :: cs =>
    simp only [List.cons_append]
    by_cases hmarks : c = '"' ∧ d = '"' ∧ e = '"'
    · obtain ⟨rfl, rfl, rfl⟩ := hmarks
      rw [tripleString_marks, tripleString_marks, hline]
      cases hbody : beforeTriple 0 (cs.takeWhile fun c => !isLineEnd c) with
      | none => rfl
      | some body =>
        have hlen := beforeTriple_le hbody
        have hle := (List.takeWhile_prefix (l := cs) fun c => !isLineEnd c).length_le
        have hdrop : (cs ++ [']']).drop (body + 3) = cs.drop (body + 3) ++ [']'] :=
          drop_bracket (by omega)
        have hbehind := stops_leading (p := (· == '"')) rfl (cs.drop (body + 3))
        rw [Option.elim_some, Option.elim_some, hdrop, hbehind]
    · rw [tripleString.eq_2 _ (by simp_all), tripleString.eq_2 _ (by simp_all)]

theorem stops_quotedString : Stops quotedString := by
  intro cs
  rw [quotedString, quotedString, stops_simpleString cs, stops_tripleString cs]

/-! ## Numbers -/

theorem stops_digits : Stops digits :=
  stops_leading rfl

theorem stops_sign : Stops sign := by
  intro cs
  cases cs <;> rfl

theorem stops_exponent : Stops exponent := by
  intro cs
  cases cs with
  | nil => rfl
  | cons c cs =>
    simp only [List.cons_append, exponent, stops_sign cs, drop_bracket (sign_le_length cs),
      stops_digits _]

theorem stops_decimal : Stops decimal := by
  intro cs
  rw [decimal, decimal, stops_digits cs, drop_bracket (digits_le_length cs)]
  generalize cs.drop (digits cs) = rest
  cases rest with
  | nil => rfl
  | cons c rest =>
    by_cases hc : c = '.'
    · subst hc
      simp [stops_digits rest, drop_bracket (digits_le_length rest), stops_exponent _]
    · have hexponent : exponent (c :: (rest ++ [']'])) = exponent (c :: rest) :=
        stops_exponent (c :: rest)
      simp [hc, hexponent]

/-! ## Names -/

theorem stops_parameter : Stops parameter := by
  intro cs
  match cs with
  | [] => rfl
  | [c] =>
    by_cases hc : c = '?'
    · subst hc
      rfl
    · simp [parameter, hc]
  | c :: d :: cs =>
    by_cases hc : c = '?'
    · subst hc
      simp [parameter, stops_leading (p := isWord) rfl cs, stops_digits cs]
    · simp [parameter, hc]

theorem stops_word {opens body : Char → Bool} (hopens : opens ']' = false)
    (hbody : body ']' = false) : Stops (word opens body) := by
  intro cs
  cases cs with
  | nil => simp [word, hopens]
  | cons c cs => rw [List.cons_append, word, word, stops_leading hbody cs]

theorem stops_quotedIdentifierFrom (passed accepted : Nat) :
    Stops (quotedIdentifierFrom passed accepted) := by
  intro cs
  fun_induction quotedIdentifierFrom passed accepted cs with
  | case1 passed accepted cs ih => simpa [quotedIdentifierFrom] using ih
  | case2 passed accepted cs hlone hpassed | case3 passed accepted cs hlone hpassed =>
    cases cs with
    | nil => simp [quotedIdentifierFrom, hpassed]
    | cons d cs =>
      have hd : d ≠ '\x60' := by
        rintro rfl
        exact hlone cs rfl
      simp [quotedIdentifierFrom, hd, hpassed]
  | case4 passed accepted c cs hpair hc ih =>
    rw [List.cons_append, quotedIdentifierFrom_of_ne hc, ih]
  | case5 => rfl

theorem stops_quotedIdentifier : Stops quotedIdentifier := by
  intro cs
  cases cs with
  | nil => rfl
  | cons c cs =>
    by_cases hc : c = '\x60'
    · subst hc
      exact stops_quotedIdentifierFrom 1 0 cs
    · simp [quotedIdentifier, hc]

theorem stops_patternPiece : Stops patternPiece := by
  intro cs
  have hword : Stops unquotedPattern := stops_word rfl rfl
  rw [patternPiece, patternPiece, hword cs, stops_quotedIdentifier cs]

end Scan

/-! ## Recognizers -/

namespace Recognizer

/-- Whether no fixed text goes on with a character behind its beginning. -/
def avoids (k : Char) : Recognizer → Bool
  | .literal text => text.tail.all (· != k)
  | .keyword word => word.tail.all fun c => !CharClass.sameLetter c k
  | _ => true

/-- The recognizers that can take in a closing bracket behind another text. -/
def takesBracket : Recognizer → Bool
  | .lineComment | .unquotedSource | .policyName => true
  | _ => false

/-- With a bracket behind the text a recognizer takes what it takes without, or all. -/
theorem matchLength_bracket {r : Recognizer} (h : r.avoids ']' = true) {cs : List Char}
    (hne : cs ≠ []) :
    r.matchLength (cs ++ [']']) = r.matchLength cs ∨
      r.takesBracket = true ∧ r.matchLength (cs ++ [']']) = cs.length + 1 := by
  cases r with
  | literal text => exact .inl (Scan.fixed_bracket (by simpa [avoids] using h) hne)
  | keyword word => exact .inl (Scan.fixed_bracket (by simpa [avoids] using h) hne)
  | lineComment => exact (Scan.lineComment_bracket cs).imp_right fun hall => ⟨rfl, hall.2.2⟩
  | blockComment => exact .inl (Scan.stops_blockComment cs)
  | whitespace | unknownCommand | integer | setting => exact .inl (Scan.stops_leading rfl cs)
  | unquotedSource => exact (Scan.unquotedSource_bracket cs).imp_right fun hall => ⟨rfl, hall.2⟩
  | quotedString => exact .inl (Scan.stops_quotedString cs)
  | decimal => exact .inl (Scan.stops_decimal cs)
  | parameter => exact .inl (Scan.stops_parameter cs)
  | unquotedIdentifier => exact .inl (Scan.stops_word rfl rfl cs)
  | quotedIdentifier => exact .inl (Scan.stops_quotedIdentifier cs)
  | idPattern =>
    exact .inl (Scan.stops_pieces Scan.patternPiece_le_length
      (fun cs _ => Scan.stops_patternPiece cs) rfl cs)
  | policyName => exact (Scan.policyName_bracket cs).imp_right fun hall => ⟨rfl, hall.2⟩

end Recognizer

end PipeQuery
