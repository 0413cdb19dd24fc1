-- SUMMARY: How far a refused text fits a string.
import Mathlib.Data.List.Basic
import PipeQuery.Proofs.Recognizer.Completion
import PipeQuery.Proofs.Recognizer.Length

/-! # Open Strings

A string is refused because it is not closed, or because of an escape that does
not exist. Tripled marks play no part in this: two marks are accepted already. -/

namespace PipeQuery.Scan

/-- What stands behind the body of a string, whose pieces are `body` long. -/
theorem openSimpleString_quote (cs : List Char) :
    openSimpleString ('"' :: cs) =
      if (cs.drop (pieces stringPiece cs)).head? = some '"' ∨
          (cs.drop (pieces stringPiece cs)).head? = some '\\' then
        pieces stringPiece cs + 2
      else pieces stringPiece cs + 1 := by
  rw [openSimpleString]
  split
  case h_1 rest hrest => simp [hrest]
  case h_2 rest hrest => simp [hrest]
  case h_3 hquote hescape =>
    rw [if_neg]
    rintro (hhead | hhead)
    · obtain ⟨rest, heq⟩ := List.head?_eq_some_iff.1 hhead
      exact hquote rest heq
    · obtain ⟨rest, heq⟩ := List.head?_eq_some_iff.1 hhead
      exact hescape rest heq

/-- The pieces of a string count again when the text goes on otherwise behind them. -/
theorem simpleString_take_append (cs ds : List Char) :
    simpleString ('"' :: (cs.take (pieces stringPiece cs) ++ ds)) =
      if (ds.drop (pieces stringPiece ds)).head? = some '"' then
        pieces stringPiece cs + pieces stringPiece ds + 2
      else 0 := by
  have hlen := settled_stringPiece.length_take_pieces cs
  have hdrop : (cs.take (pieces stringPiece cs) ++ ds).drop
      (pieces stringPiece cs + pieces stringPiece ds) = ds.drop (pieces stringPiece ds) := by
    rw [List.drop_append, hlen, Nat.add_sub_cancel_left, List.drop_eq_nil_of_le, List.nil_append]
    rw [hlen]
    exact Nat.le_add_right _ _
  rw [simpleString_quote, pieces_take_append settled_stringPiece, hdrop]

theorem begins_of_simpleString_pos {cs : List Char} (h : 0 < simpleString cs) :
    ∃ body, cs = '"' :: body := by
  unfold simpleString at h
  split at h
  case h_1 body => exact ⟨body, rfl⟩
  case h_2 => exact absurd h (Nat.lt_irrefl _)

theorem begins_of_tripleString_pos {cs : List Char} (h : 0 < tripleString cs) :
    ∃ body, cs = '"' :: '"' :: '"' :: body := by
  unfold tripleString at h
  split at h
  case h_1 body => exact ⟨body, rfl⟩
  case h_2 => exact absurd h (Nat.lt_irrefl _)

theorem begins_of_quotedString_pos {cs : List Char} (h : 0 < quotedString cs) :
    ∃ body, cs = '"' :: body := by
  rw [quotedString] at h
  rcases Nat.eq_zero_or_pos (simpleString cs) with hzero | hpos
  · rw [hzero, Nat.zero_max] at h
    obtain ⟨body, rfl⟩ := begins_of_tripleString_pos h
    exact ⟨_, rfl⟩
  · exact begins_of_simpleString_pos hpos

/-- Two marks are a string already, so that a text that begins with them is taken. -/
theorem quotedString_quote_quote_pos (cs : List Char) : 0 < quotedString ('"' :: '"' :: cs) :=
  Nat.lt_of_lt_of_le Nat.two_pos (Nat.le_max_left _ _)

theorem quotedString_eq_length {cs : List Char} (h : simpleString cs = cs.length) :
    quotedString cs = cs.length := by
  rw [quotedString, h]
  exact Nat.max_eq_left (tripleString_le_length cs)

theorem openSimpleString_of_ne {cs : List Char} (h : ∀ body, cs ≠ '"' :: body) :
    openSimpleString cs = 0 := by
  unfold openSimpleString
  split
  case h_1 body => exact absurd rfl (h body)
  case h_2 => rfl

/-- A string that is not closed takes a closing mark, behind a dangling backslash
one that stands for a character first. -/
theorem completable_openSimpleString {cs : List Char} (hscan : quotedString cs = 0) :
    Completable quotedString (cs.take (openSimpleString cs)) := by
  by_cases hquote : ∃ body, cs = '"' :: body
  · obtain ⟨cs, rfl⟩ := hquote
    have hlen := settled_stringPiece.length_take_pieces cs
    -- A mark behind what has been read makes a whole string of it.
    have hclosed : ∀ ds, (ds.drop (pieces stringPiece ds)) = ['"'] →
        quotedString ('"' :: (cs.take (pieces stringPiece cs) ++ ds)) =
          ('"' :: (cs.take (pieces stringPiece cs) ++ ds)).length := by
      intro ds hds
      refine quotedString_eq_length ?_
      have hrest := congrArg List.length hds
      rw [List.length_drop, List.length_singleton] at hrest
      rw [simpleString_take_append, hds, List.head?_cons, if_pos rfl, List.length_cons,
        List.length_append, hlen]
      omega
    have hsimple : simpleString ('"' :: cs) = 0 := Nat.eq_zero_of_not_pos fun hpos =>
      absurd hscan (Nat.lt_of_lt_of_le hpos (Nat.le_max_left _ _)).ne'
    have hstop : (cs.drop (pieces stringPiece cs)).head? ≠ some '"' := by
      intro hhead
      rw [simpleString_quote, if_pos hhead] at hsimple
      exact absurd hsimple (Nat.succ_ne_zero _)
    rw [openSimpleString_quote]
    -- A backslash at the end needs a character to escape before the mark.
    by_cases hescape : (cs.drop (pieces stringPiece cs)).head? = some '\\'
    · obtain ⟨rest, hrest⟩ := List.head?_eq_some_iff.1 hescape
      rw [if_pos (.inr hescape), List.take_succ_cons, List.take_add, hrest]
      refine ⟨['n', '"'], List.cons_ne_nil _ _, ?_⟩
      have htail := hclosed ['\\', 'n', '"'] (by decide)
      simpa only [List.cons_append, List.append_assoc, List.take_succ_cons, List.take_zero,
        List.nil_append] using htail
    · rw [if_neg (not_or.2 ⟨hstop, hescape⟩), List.take_succ_cons]
      exact ⟨['"'], List.cons_ne_nil _ _, hclosed ['"'] (by decide)⟩
  · rw [openSimpleString_of_ne fun body heq => hquote ⟨body, heq⟩, List.take_zero]
    exact ⟨['"', '"'], by decide⟩

/-- One character, or an escape, settles that no piece follows. -/
theorem stringPiece_eq_zero_of_append {c : Char} {ds cs : List Char}
    (h : stringPiece (c :: ds ++ cs) = 0) (hescape : c = '\\' → ds ≠ []) (s : List Char) :
    stringPiece (c :: ds ++ s) = 0 := by
  by_cases hc : c = '\\'
  · obtain ⟨d, ds, rfl⟩ := List.exists_cons_of_ne_nil (hescape hc)
    subst hc
    exact h
  · rw [List.cons_append, stringPiece_of_ne hc] at h ⊢
    exact h

/-- A string is refused where neither a piece nor the closing mark follows. -/
theorem simpleString_of_stuck {ds : List Char} (hpiece : stringPiece ds = 0)
    (hhead : ds.head? ≠ some '"') (cs : List Char) :
    simpleString ('"' :: (cs.take (pieces stringPiece cs) ++ ds)) = 0 := by
  rw [simpleString_take_append, pieces_of_zero hpiece, List.drop_zero, if_neg hhead]

/-- What is refused does not begin with two marks, let alone with three. -/
theorem tripleString_of_refused {c : Char} {cs : List Char} (h : quotedString ('"' :: c :: cs) = 0)
    (ds : List Char) : tripleString ('"' :: c :: ds) = 0 := by
  refine Nat.eq_zero_of_not_pos fun hpos => ?_
  obtain ⟨_, hmarks⟩ := begins_of_tripleString_pos hpos
  obtain rfl : c = '"' := (List.cons.inj (List.cons.inj hmarks).2).1
  exact absurd h (quotedString_quote_quote_pos cs).ne'

/-- A beginning that is longer than the pieces goes on with what begins no piece. -/
theorem exists_beyond_pieces {q cs : List Char} (hlt : pieces stringPiece (q ++ cs) < q.length) :
    ∃ c ds, q = (q ++ cs).take (pieces stringPiece (q ++ cs)) ++ c :: ds ∧
      (q ++ cs).drop (pieces stringPiece (q ++ cs)) = c :: ds ++ cs ∧
      stringPiece (c :: ds ++ cs) = 0 := by
  have hne : q.drop (pieces stringPiece (q ++ cs)) ≠ [] := by
    rw [ne_eq, List.drop_eq_nil_iff]
    exact Nat.not_le.2 hlt
  obtain ⟨c, ds, hds⟩ := List.exists_cons_of_ne_nil hne
  have hdrop : (q ++ cs).drop (pieces stringPiece (q ++ cs)) = c :: ds ++ cs := by
    rw [List.drop_append_of_le_length (Nat.le_of_lt hlt), hds]
  have hstop := (piece_drop_pieces stringPiece (q ++ cs)).resolve_left (by simp [hdrop])
  refine ⟨c, ds, ?_, hdrop, by rwa [hdrop] at hstop⟩
  rw [List.take_append_of_le_length (Nat.le_of_lt hlt), ← hds, List.take_append_drop]

/-- Beyond its pieces a refused string stays refused, unless all that follows them
is a backslash. -/
theorem quotedString_of_beyond {q cs ds : List Char} {c : Char}
    (hscan : quotedString ('"' :: (q ++ cs)) = 0)
    (hsplit : q = (q ++ cs).take (pieces stringPiece (q ++ cs)) ++ c :: ds)
    (hdrop : (q ++ cs).drop (pieces stringPiece (q ++ cs)) = c :: ds ++ cs)
    (hstop : stringPiece (c :: ds ++ cs) = 0) (hescape : c = '\\' → ds ≠ []) (s : List Char) :
    quotedString ('"' :: (q ++ s)) = 0 := by
  have hne : c ≠ '"' := by
    rintro rfl
    have hsimple := (Nat.max_eq_zero_iff.1 hscan).1
    rw [simpleString_quote, hdrop] at hsimple
    exact absurd hsimple (Nat.succ_ne_zero _)
  have hstuck := simpleString_of_stuck (stringPiece_eq_zero_of_append hstop hescape s)
    (by simpa using hne) (q ++ cs)
  rw [← List.append_assoc, ← hsplit] at hstuck
  have htriple : tripleString ('"' :: (q ++ s)) = 0 := by
    cases q with
    | nil => exact absurd hsplit (by simp)
    | cons d q => exact tripleString_of_refused hscan (q ++ s)
  rw [quotedString, hstuck, htriple]
  rfl

/-- A beginning of a string goes no further than its pieces, and the backslash
that may stand behind them. -/
theorem length_le_openSimpleString {cs q s : List Char} (hscan : quotedString cs = 0)
    (hq : q <+: cs) (hpos : 0 < quotedString (q ++ s)) : q.length ≤ openSimpleString cs := by
  obtain ⟨cs', rfl⟩ := hq
  match q with
  | [] => exact Nat.zero_le _
  | c :: q =>
    obtain ⟨_, hbegin⟩ := begins_of_quotedString_pos hpos
    obtain rfl : c = '"' := (List.cons.inj hbegin).1
    rw [List.cons_append, openSimpleString_quote, List.length_cons]
    rcases Nat.lt_or_ge (pieces stringPiece (q ++ cs')) q.length with hlt | hle
    · obtain ⟨e, ds, hsplit, hdrop, hstop⟩ := exists_beyond_pieces hlt
      -- A backslash alone may still become an escape; whatever else follows never fits.
      by_cases hlone : e = '\\' ∧ ds = []
      · obtain ⟨rfl, rfl⟩ := hlone
        have hlen := congrArg List.length hsplit
        rw [List.length_append, settled_stringPiece.length_take_pieces, List.length_singleton] at hlen
        rw [hdrop, if_pos (.inr rfl), hlen]
      · have hrefused := quotedString_of_beyond hscan hsplit hdrop hstop
          (fun he hds => hlone ⟨he, hds⟩) s
        exact absurd hrefused hpos.ne'
    · split <;> omega

theorem measures_quotedString :
    Measures quotedString fun cs => max (openSimpleString cs) (openTripleString cs) := by
  have h : Measures quotedString openSimpleString :=
    ⟨completable_openSimpleString, length_le_openSimpleString⟩
  refine h.congr fun cs hscan => Nat.max_eq_left ?_
  match cs with
  | [] => exact Nat.zero_le _
  | c :: cs =>
    by_cases hc : c = '"'
    · subst hc
      have hmarks : leading (· == '"') ('"' :: cs) = 1 := by
        rw [leading_cons_of_pos rfl, Nat.add_eq_right, leading_eq_zero_iff]
        intro d hd
        refine Bool.eq_false_iff.2 fun hquote => ?_
        obtain rfl : d = '"' := by simpa using hquote
        rw [List.eq_cons_of_mem_head? hd] at hscan
        exact absurd hscan (quotedString_quote_quote_pos _).ne'
      have hopen : openTripleString ('"' :: cs) = 1 := by
        simp [openTripleString, hmarks]
      rw [hopen, openSimpleString_quote]
      split <;> omega
    · have hmarks : leading (· == '"') (c :: cs) = 0 := leading_cons_of_neg (by simpa using hc) cs
      simp [openTripleString, hmarks]

end PipeQuery.Scan
