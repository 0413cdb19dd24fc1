-- SUMMARY: How far a refused text fits a name between backquotes or a field pattern.
import PipeQuery.Proofs.Recognizer.Length
import PipeQuery.Proofs.Recognizer.OpenMark

/-! # Open Names

A name between backquotes is accepted as soon as it holds something and a
backquote follows, also if this backquote could be the first of a doubled one. -/

namespace PipeQuery.Scan

theorem quotedIdentifierFrom_pos {accepted : Nat} (h : 0 < accepted) (passed : Nat)
    (cs : List Char) : 0 < quotedIdentifierFrom passed accepted cs := by
  fun_induction quotedIdentifierFrom passed accepted cs with
  | case1 passed accepted cs ih =>
    refine ih ?_
    split
    · exact Nat.succ_pos _
    · exact h
  | case2 passed accepted cs => exact Nat.succ_pos _
  | case3 | case5 => exact h
  | case4 passed accepted c cs _ _ ih => exact ih h

/-- A name that is not empty is accepted at its next backquote. -/
theorem not_mem_of_quotedIdentifierFrom {passed accepted : Nat} {cs : List Char}
    (hpassed : 1 < passed) (h : quotedIdentifierFrom passed accepted cs = 0) : '\x60' ∉ cs := by
  fun_induction quotedIdentifierFrom passed accepted cs with
  | case1 passed accepted cs ih =>
    refine absurd h (quotedIdentifierFrom_pos ?_ _ _).ne'
    simp [hpassed]
  | case2 => exact absurd h (Nat.succ_ne_zero _)
  | case3 passed accepted cs _ hnot => exact absurd hpassed hnot
  | case4 passed accepted c cs _ hlone ih =>
    rw [List.mem_cons, not_or]
    exact ⟨fun hc => hlone hc.symm, ih (Nat.lt_succ_of_lt hpassed) h⟩
  | case5 => exact List.not_mem_nil

/-- The next backquote closes a name that is not empty. -/
theorem quotedIdentifierFrom_append {cs : List Char} (h : '\x60' ∉ cs) {passed : Nat}
    (accepted : Nat) (hpassed : 1 < passed + cs.length) :
    quotedIdentifierFrom passed accepted (cs ++ ['\x60']) = passed + cs.length + 1 := by
  induction cs generalizing passed with
  | nil => exact if_pos hpassed
  | cons c cs ih =>
    rw [List.mem_cons, not_or] at h
    rw [List.length_cons] at hpassed ⊢
    rw [List.cons_append, quotedIdentifierFrom_of_ne (Ne.symm h.1), ih h.2 (by omega)]
    omega

theorem backquotedPiece_of_ne {c : Char} (h : c ≠ '\x60') (cs : List Char) :
    backquotedPiece (c :: cs) = 1 := by
  unfold backquotedPiece
  split
  case h_1 heq => exact absurd (List.cons.inj heq).1 h
  case h_2 heq => exact absurd (List.cons.inj heq).1 h
  case h_3 => rfl
  case h_4 heq => exact absurd heq nofun

theorem pieces_backquotedPiece {cs : List Char} (h : '\x60' ∉ cs) :
    pieces backquotedPiece cs = cs.length := by
  induction cs with
  | nil => rfl
  | cons c cs ih =>
    rw [List.mem_cons, not_or] at h
    have hone : backquotedPiece ([c] ++ cs) = [c].length := backquotedPiece_of_ne (Ne.symm h.1) cs
    have hall := pieces_append (List.cons_ne_nil c []) hone
    rw [ih h.2, List.length_singleton, Nat.add_comm] at hall
    exact hall

theorem pieces_backquotedPiece_pair (cs : List Char) :
    pieces backquotedPiece ('\x60' :: '\x60' :: cs) = 2 + pieces backquotedPiece cs := by
  have hpair : backquotedPiece (['\x60', '\x60'] ++ cs) = 2 := rfl
  exact pieces_append (List.cons_ne_nil _ _) hpair

/-- A letter and a backquote close whatever has no backquote yet. -/
theorem quotedIdentifierFrom_append_letter {cs : List Char} (h : '\x60' ∉ cs) {passed : Nat}
    (hpassed : 0 < passed) :
    quotedIdentifierFrom passed 0 (cs ++ ['a', '\x60']) = passed + (cs ++ ['a', '\x60']).length := by
  have hletter : '\x60' ∉ cs ++ ['a'] := by simpa using h
  have hlonger : 1 < passed + (cs ++ ['a']).length := by
    rw [List.length_append, List.length_singleton]
    omega
  simpa [Nat.add_assoc] using quotedIdentifierFrom_append hletter 0 hlonger

/-- How a quoted name is refused: it is not opened, it holds nothing, or it is not
closed. -/
theorem cases_of_quotedIdentifier_eq_zero {cs : List Char} (h : quotedIdentifier cs = 0) :
    (∀ c ∈ cs.head?, c ≠ '\x60') ∨
    (∃ rest, cs = '\x60' :: '\x60' :: rest ∧ ∀ c ∈ rest.head?, c ≠ '\x60') ∨
    ∃ rest, cs = '\x60' :: rest ∧ pieces backquotedPiece rest = rest.length ∧
      quotedIdentifier (cs ++ ['a', '\x60']) = (cs ++ ['a', '\x60']).length := by
  unfold quotedIdentifier at h
  split at h
  case h_1 cs =>
    rw [quotedIdentifierFrom.eq_def] at h
    -- A second backquote may be half of a pair, or close a name without characters.
    split at h
    case h_1 cs =>
      have hrest : '\x60' ∉ cs := not_mem_of_quotedIdentifierFrom (by decide) h
      refine .inr (.inr ⟨_, rfl, ?_, ?_⟩)
      · rw [pieces_backquotedPiece_pair, pieces_backquotedPiece hrest, Nat.add_comm]
        rfl
      · have hclosed := quotedIdentifierFrom_append_letter hrest (by decide : 0 < 3)
        rw [Nat.add_comm] at hclosed
        exact hclosed
    case h_2 cs hlone =>
      refine .inr (.inl ⟨cs, rfl, ?_⟩)
      rintro c hc rfl
      exact hlone _ (List.eq_cons_of_mem_head? hc)
    case h_3 c cs hpair hlone =>
      have hrest : '\x60' ∉ cs := not_mem_of_quotedIdentifierFrom (by decide) h
      have hall : '\x60' ∉ c :: cs := by
        rw [List.mem_cons, not_or]
        exact ⟨fun hc => hlone hc.symm, hrest⟩
      have hclosed := quotedIdentifierFrom_append_letter hall Nat.one_pos
      rw [Nat.add_comm] at hclosed
      exact .inr (.inr ⟨_, rfl, pieces_backquotedPiece hall, hclosed⟩)
    case h_4 => exact .inr (.inr ⟨[], by decide⟩)
  case h_2 hopen =>
    refine .inl ?_
    rintro c hc rfl
    exact hopen _ (List.eq_cons_of_mem_head? hc)

theorem openQuotedIdentifier_of_ne {cs : List Char} (h : ∀ c ∈ cs.head?, c ≠ '\x60') :
    openQuotedIdentifier cs = 0 := by
  unfold openQuotedIdentifier
  split
  case h_1 => exact absurd rfl (h '\x60' rfl)
  case h_2 => rfl

/-- Nothing fits behind the two backquotes of an empty name. -/
theorem openQuotedIdentifier_of_empty {rest : List Char} (h : ∀ c ∈ rest.head?, c ≠ '\x60') :
    openQuotedIdentifier ('\x60' :: '\x60' :: rest) = 2 := by
  have hpiece : backquotedPiece ('\x60' :: rest) = 0 := by
    unfold backquotedPiece
    split
    case h_1 heq => exact absurd rfl (h '\x60' (by rw [(List.cons.inj heq).2]; rfl))
    case h_2 => rfl
    case h_3 hlone heq => exact absurd (List.cons.inj heq).1.symm hlone
    case h_4 heq => exact absurd heq nofun
  rw [openQuotedIdentifier, pieces_of_zero hpiece]
  rfl

theorem quotedIdentifier_of_empty {rest : List Char} (h : ∀ c ∈ rest.head?, c ≠ '\x60') :
    quotedIdentifier ('\x60' :: '\x60' :: rest) = 0 := by
  rw [quotedIdentifier, quotedIdentifierFrom.eq_def]
  split
  case h_1 heq => exact absurd rfl (h '\x60' (by rw [(List.cons.inj heq).2]; rfl))
  case h_2 => rfl
  case h_3 hlone heq => exact absurd (List.cons.inj heq).1.symm hlone
  case h_4 heq => exact absurd heq nofun

/-- A name that is not closed is open to its end. -/
theorem openQuotedIdentifier_of_body {rest : List Char}
    (h : pieces backquotedPiece rest = rest.length) :
    openQuotedIdentifier ('\x60' :: rest) = ('\x60' :: rest).length := by
  simp only [openQuotedIdentifier, h, List.drop_length, List.length_cons]

theorem begins_of_quotedIdentifier_pos {cs : List Char} (h : 0 < quotedIdentifier cs) :
    ∃ body, cs = '\x60' :: body := by
  unfold quotedIdentifier at h
  split at h
  case h_1 body => exact ⟨body, rfl⟩
  case h_2 => exact absurd h (Nat.lt_irrefl _)

theorem measures_quotedIdentifier : Measures quotedIdentifier openQuotedIdentifier where
  completable {cs} hscan := by
    rcases cases_of_quotedIdentifier_eq_zero hscan with hopen | ⟨rest, rfl, hrest⟩ |
      ⟨rest, rfl, hbody, hclosed⟩
    · rw [openQuotedIdentifier_of_ne hopen, List.take_zero]
      exact ⟨['\x60', 'a', '\x60'], by decide⟩
    · rw [openQuotedIdentifier_of_empty hrest, List.take_succ_cons, List.take_succ_cons,
        List.take_zero]
      exact ⟨['\x60', '\x60'], by decide⟩
    · rw [openQuotedIdentifier_of_body hbody, List.take_length]
      exact ⟨['a', '\x60'], List.cons_ne_nil _ _, hclosed⟩
  fits {cs q s} hscan hq hpos := by
    rcases cases_of_quotedIdentifier_eq_zero hscan with hopen | ⟨rest, rfl, hrest⟩ |
      ⟨rest, rfl, hbody, hclosed⟩
    · obtain ⟨cs', rfl⟩ := hq
      obtain ⟨_, hbegin⟩ := begins_of_quotedIdentifier_pos hpos
      cases q with
      | nil => exact Nat.zero_le _
      | cons c q => exact absurd (List.cons.inj hbegin).1 (hopen c rfl)
    · rw [openQuotedIdentifier_of_empty hrest]
      obtain ⟨cs', hcs⟩ := hq
      match q with
      | [] => exact Nat.zero_le _
      | [c] => exact Nat.le_succ _
      | [c, d] => exact Nat.le_refl _
      -- A third character would have to be a backquote, which does not follow.
      | c :: d :: e :: q =>
        simp only [List.cons_append, List.cons.injEq] at hcs
        obtain ⟨rfl, rfl, rfl⟩ := hcs
        have hrest' : ∀ c ∈ (e :: q ++ s).head?, c ≠ '\x60' := hrest
        exact absurd (quotedIdentifier_of_empty hrest') hpos.ne'
    · rw [openQuotedIdentifier_of_body hbody]
      exact hq.length_le

theorem measures_idPattern : Measures idPattern openIdPattern := by
  have hword : Measures unquotedPattern (openMark fun c => c == '_' || c == '@') :=
    measures_word (c := 'a') rfl rfl
  have hpiece := hword.either measures_quotedIdentifier (word_le_length _ _)
    quotedIdentifier_le_length
  refine (hpiece.repeated rfl).congr fun cs hscan => ?_
  have hzero : idPattern cs = 0 := hscan
  rw [openIdPattern, hzero]
  exact Nat.zero_add _

end PipeQuery.Scan
