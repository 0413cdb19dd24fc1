-- SUMMARY: Scanners that take no more of a text that is cut, and as much if the cut lies behind what they take.
import PipeQuery.Proofs.Recognizer.Length

/-! # Cut Texts

A scanner that takes the longest beginning it can take whole is told from others by how it
reads texts that are cut. Cutting leaves no longer beginnings, and leaves the longest one if
it lies before the cut. -/

namespace PipeQuery.Scan

/-- Whether a scanner takes no more of a text that is cut, and what it took if the cut lies
behind that. -/
def Steady (scan : List Char → Nat) : Prop :=
  ∀ cs k, scan (cs.take k) ≤ scan cs ∧ (scan cs ≤ k → scan (cs.take k) = scan cs)

namespace Steady

variable {scan other : List Char → Nat}

/-- What is taken is taken whole when it stands alone. -/
theorem take_self (h : Steady scan) (cs : List Char) : scan (cs.take (scan cs)) = scan cs :=
  (h cs (scan cs)).2 (Nat.le_refl _)

theorem le_of_prefix (h : Steady scan) {p cs : List Char} (hp : p <+: cs) : scan p ≤ scan cs := by
  rw [List.prefix_iff_eq_take.1 hp]
  exact (h cs p.length).1

/-- A text may be continued instead of cut. -/
theorem of_append (hle : ∀ cs, scan cs ≤ cs.length)
    (h : ∀ p s, scan p ≤ scan (p ++ s) ∧ (scan (p ++ s) ≤ p.length → scan p = scan (p ++ s))) :
    Steady scan := by
  intro cs k
  have hcut := h (cs.take k) (cs.drop k)
  rw [List.take_append_drop, List.length_take] at hcut
  exact ⟨hcut.1, fun hk => hcut.2 (Nat.le_min.2 ⟨hk, hle cs⟩)⟩

protected theorem max (h : Steady scan) (h' : Steady other) :
    Steady fun cs => max (scan cs) (other cs) := by
  intro cs k
  obtain ⟨hle, heq⟩ := h cs k
  obtain ⟨hle', heq'⟩ := h' cs k
  refine ⟨Nat.max_le.2 ⟨Nat.le_trans hle (Nat.le_max_left _ _),
    Nat.le_trans hle' (Nat.le_max_right _ _)⟩, ?_⟩
  intro hk
  obtain ⟨hfirst, hsecond⟩ := Nat.max_le.1 hk
  simp only [heq hfirst, heq' hsecond]

end Steady

/-- The longest beginning of a text that a scanner takes as a whole. -/
structure LongestTaken (scan : List Char → Nat) (cs p : List Char) : Prop where
  begins : p <+: cs
  whole : scan p = p.length
  longest : ∀ q, q <+: cs → scan q = q.length → q.length ≤ p.length

theorem Steady.longestTaken {scan : List Char → Nat} (h : Steady scan)
    (hle : ∀ cs, scan cs ≤ cs.length) (cs : List Char) :
    LongestTaken scan cs (cs.take (scan cs)) where
  begins := List.take_prefix _ _
  whole := by rw [h.take_self, List.length_take, Nat.min_eq_left (hle cs)]
  longest q hq hwhole := by
    rw [List.length_take, Nat.min_eq_left (hle cs), ← hwhole]
    exact h.le_of_prefix hq

/-! ## Runs and Pieces -/

theorem leading_take (p : Char → Bool) (cs : List Char) (k : Nat) :
    leading p (cs.take k) = min k (leading p cs) := by
  induction cs generalizing k with
  | nil => simp
  | cons c cs ih =>
    cases k with
    | zero => simp
    | succ k =>
      rw [List.take_succ_cons]
      cases h : p c with
      | false => rw [leading_cons_of_neg h, leading_cons_of_neg h, Nat.min_zero]
      | true => rw [leading_cons_of_pos h, leading_cons_of_pos h, ih, Nat.succ_min_succ]

/-- Cutting a text cuts what stands behind a run. -/
theorem drop_leading_take (p : Char → Bool) (cs : List Char) (k : Nat) :
    (cs.take k).drop (leading p (cs.take k)) = (cs.drop (leading p cs)).take (k - leading p cs) := by
  rw [leading_take]
  rcases Nat.le_total k (leading p cs) with hk | hk
  · rw [Nat.min_eq_left hk, Nat.sub_eq_zero_of_le hk, List.take_zero]
    exact List.drop_eq_nil_of_le (List.length_take_le _ _)
  · rw [Nat.min_eq_right hk, List.drop_take]

theorem leading_append (p : Char → Bool) (cs ds : List Char) :
    leading p cs = min cs.length (leading p (cs ++ ds)) := by
  have h := leading_take p (cs ++ ds) cs.length
  rwa [List.take_left] at h

theorem steady_leading (p : Char → Bool) : Steady (leading p) := by
  intro cs k
  rw [leading_take]
  omega

/-- A settled piece of a text that is cut is a piece of the text. -/
theorem Settled.steady {piece : List Char → Nat} (h : Settled piece) : Steady piece := by
  have hsame : ∀ cs k, 0 < piece (cs.take k) → piece cs = piece (cs.take k) := by
    intro cs k hpos
    obtain ⟨hle, hsettled⟩ := h (cs.take k)
    have hbegin : (cs.take k).take (piece (cs.take k)) <+: cs :=
      (List.take_prefix _ _).trans (List.take_prefix _ _)
    obtain ⟨ds, hds⟩ := hbegin
    have hpiece := hsettled hpos ds
    rwa [hds] at hpiece
  intro cs k
  rcases Nat.eq_zero_or_pos (piece (cs.take k)) with hzero | hpos
  · refine ⟨hzero ▸ Nat.zero_le _, ?_⟩
    intro hk
    -- A piece before the cut would have been there behind it too.
    by_contra hne
    have hpos : 0 < piece cs := by omega
    have hcut : cs.take (piece cs) ++ (cs.take k).drop (piece cs) = cs.take k := by
      have hbegin : cs.take (piece cs) = (cs.take k).take (piece cs) := by
        rw [List.take_take, Nat.min_eq_left hk]
      rw [hbegin, List.take_append_drop]
    have hpiece := (h cs).2 hpos ((cs.take k).drop (piece cs))
    rw [hcut] at hpiece
    omega
  · rw [← hsame cs k hpos]
    exact ⟨Nat.le_refl _, fun _ => rfl⟩

/-- A cut lies inside a first piece, or behind one that is there as before. -/
theorem Steady.pieces {piece : List Char → Nat} (h : Steady piece)
    (hle : ∀ cs, piece cs ≤ cs.length) : Steady (pieces piece) := by
  intro cs
  induction cs using pieces_induction piece with
  | stop cs hstop =>
    intro k
    -- A text without a first piece has none when it is cut.
    have hcut : cs.take k = [] ∨ piece (cs.take k) = 0 := by
      rcases hstop with rfl | hzero
      · exact .inl List.take_nil
      · exact .inr (Nat.le_zero.1 (hzero ▸ (h cs k).1))
    rw [pieces_of_stop hstop, pieces_of_stop hcut]
    exact ⟨Nat.le_refl _, fun _ => rfl⟩
  | step cs hne hpos ih =>
    intro k
    rw [pieces_of_pos hne hpos]
    by_cases hk : piece cs ≤ k
    · have hfirst : piece (cs.take k) = piece cs := (h cs k).2 hk
      have hcut : cs.take k ≠ [] := by
        intro hnil
        have hlen := hle (cs.take k)
        rw [hfirst, hnil, List.length_nil] at hlen
        omega
      obtain ⟨hrest, hsame⟩ := ih (k - piece cs)
      rw [pieces_of_pos hcut (hfirst ▸ hpos), hfirst, List.drop_take]
      exact ⟨Nat.add_le_add_left hrest _, fun hall => by rw [hsame (by omega)]⟩
    -- The cut goes through the first piece.
    · have hshort := pieces_le_length hle (cs.take k)
      rw [List.length_take] at hshort
      omega

/-! ## Policies -/

theorem steady_policyName : Steady policyName := by
  intro cs k
  have hhead := leading_take CharClass.isPolicy cs k
  have hrest := drop_leading_take CharClass.isPolicy cs k
  rw [hhead] at hrest
  rw [policyName, policyName, hhead, hrest]
  generalize leading CharClass.isPolicy cs = head
  generalize cs.drop head = rest
  cases rest with
  | nil =>
    simp only [List.take_nil]
    omega
  | cons c rest =>
    by_cases hc : c = ':'
    · subst hc
      -- The cut is in front of the colon, or behind it.
      cases hj : k - head with
      | zero =>
        simp only [List.take_zero]
        split_ifs <;> omega
      | succ j =>
        have htail := leading_take CharClass.isPolicy rest j
        simp only [List.take_succ_cons, htail]
        split_ifs <;> omega
    · cases hj : k - head with
      | zero =>
        simp only [List.take_zero, List.cons.injEq, hc, false_and, imp_self, implies_true]
        omega
      | succ j =>
        simp only [List.take_succ_cons, List.cons.injEq, hc, false_and, imp_self, implies_true]
        omega

/-! ## Names -/

theorem steady_word (opens body : Char → Bool) : Steady (word opens body) := by
  intro cs k
  cases cs with
  | nil => simp
  | cons c cs =>
    cases k with
    | zero =>
      rw [List.take_zero, word, word]
      exact ⟨Nat.zero_le _, fun h => (Nat.le_zero.1 h).symm⟩
    | succ k =>
      have hbody := leading_take body cs k
      rw [List.take_succ_cons, word, word, hbody]
      dsimp only
      split_ifs <;> omega

/-- The walk accepts a name behind what it passed, or nothing new. -/
theorem quotedIdentifierFrom_cases (passed accepted : Nat) (cs : List Char) :
    quotedIdentifierFrom passed accepted cs = accepted ∨
      passed < quotedIdentifierFrom passed accepted cs := by
  fun_induction quotedIdentifierFrom passed accepted cs with
  | case1 passed accepted cs ih => split_ifs at ih ⊢ <;> omega
  | case2 passed accepted cs _ hpassed => exact .inr (Nat.lt_succ_self _)
  | case3 | case5 => exact .inl rfl
  | case4 passed accepted c cs _ _ ih => omega

/-- A walk that is cut at once keeps what was accepted. -/
theorem quotedIdentifierFrom_ge {passed accepted : Nat} (h : accepted ≤ passed) (cs : List Char) :
    accepted ≤ quotedIdentifierFrom passed accepted cs ∧
      (quotedIdentifierFrom passed accepted cs ≤ passed →
        accepted = quotedIdentifierFrom passed accepted cs) := by
  have hcases := quotedIdentifierFrom_cases passed accepted cs
  omega

theorem steady_quotedIdentifierFrom {passed accepted : Nat} (h : accepted ≤ passed)
    (cs : List Char) (k : Nat) :
    quotedIdentifierFrom passed accepted (cs.take k) ≤ quotedIdentifierFrom passed accepted cs ∧
      (quotedIdentifierFrom passed accepted cs ≤ passed + k →
        quotedIdentifierFrom passed accepted (cs.take k) =
          quotedIdentifierFrom passed accepted cs) := by
  have hnow := quotedIdentifierFrom_ge h cs
  fun_induction quotedIdentifierFrom passed accepted cs generalizing k with
  | case1 passed accepted cs ih =>
    rcases k with _ | _ | k
    · exact hnow
    · have hbehind := quotedIdentifierFrom_cases (passed + 2)
        (if 1 < passed then passed + 1 else accepted) cs
      simp only [List.take_succ_cons, List.take_zero, quotedIdentifierFrom]
      split_ifs at hbehind ⊢ <;> omega
    · have haccepted : (if 1 < passed then passed + 1 else accepted) ≤ passed + 2 := by
        split_ifs <;> omega
      have hstep := ih haccepted k (quotedIdentifierFrom_ge haccepted cs)
      rw [List.take_succ_cons, List.take_succ_cons, quotedIdentifierFrom]
      exact ⟨hstep.1, fun hk => hstep.2 (by omega)⟩
  | case2 passed accepted cs hlone hpassed | case3 passed accepted cs hlone hpassed =>
    cases k with
    | zero => exact hnow
    | succ k =>
      have hcut : quotedIdentifierFrom passed accepted ('\x60' :: cs.take k) =
          if 1 < passed then passed + 1 else accepted := by
        rw [quotedIdentifierFrom]
        intro ds hds
        have hcs := List.take_append_drop k cs
        rw [hds, List.cons_append] at hcs
        exact hlone _ hcs.symm
      rw [List.take_succ_cons, hcut]
      simp [hpassed]
  | case4 passed accepted c cs _ hc ih =>
    cases k with
    | zero => exact hnow
    | succ k =>
      have hstep := ih (by omega) k (quotedIdentifierFrom_ge (by omega) cs)
      rw [List.take_succ_cons, quotedIdentifierFrom_of_ne hc]
      exact ⟨hstep.1, fun hk => hstep.2 (by omega)⟩
  | case5 => simp [quotedIdentifierFrom]

theorem steady_quotedIdentifier : Steady quotedIdentifier := by
  intro cs k
  cases cs with
  | nil => simp
  | cons c cs =>
    by_cases hc : c = '\x60'
    · subst hc
      have hnow := quotedIdentifierFrom_cases 1 0 cs
      cases k with
      | zero =>
        simp only [List.take_zero, quotedIdentifier]
        omega
      | succ k =>
        have hcut := steady_quotedIdentifierFrom (Nat.zero_le 1) cs k
        rw [List.take_succ_cons, quotedIdentifier, quotedIdentifier]
        exact ⟨hcut.1, fun hk => hcut.2 (by omega)⟩
    · cases k <;> simp [quotedIdentifier, hc]

theorem steady_patternPiece : Steady patternPiece :=
  (steady_word _ _).max steady_quotedIdentifier

end PipeQuery.Scan
