-- SUMMARY: Beginnings of a text that some accepted text still begins with, and what it is to measure the longest one.
import PipeQuery.Proofs.Recognizer.Scan
import PipeQuery.Recognizer.Reach

/-! # Completion

Each recognizer has two scanners: one for what it accepts, and one for how far a
text that it refuses still fits. The second is right if the beginning that it
measures can be completed, and no longer beginning can. -/

namespace PipeQuery.Scan

/-- Whether a scanner takes all of some text that begins like this. -/
def Completable (scan : List Char → Nat) (p : List Char) : Prop :=
  ∃ s, p ++ s ≠ [] ∧ scan (p ++ s) = (p ++ s).length

theorem Completable.pos {scan : List Char → Nat} {p : List Char} (h : Completable scan p) :
    ∃ s, 0 < scan (p ++ s) := by
  obtain ⟨s, hne, hscan⟩ := h
  refine ⟨s, ?_⟩
  rw [hscan]
  exact List.length_pos_iff.2 hne

/-- Where nothing is taken, the open length is that of the longest beginning that
can be completed. Beyond it, no text is even taken in part. -/
structure Measures (scan openLength : List Char → Nat) : Prop where
  completable : ∀ {cs}, scan cs = 0 → Completable scan (cs.take (openLength cs))
  fits : ∀ {cs q s}, scan cs = 0 → q <+: cs → 0 < scan (q ++ s) → q.length ≤ openLength cs

namespace Measures

variable {scan scan' openLength openLength' : List Char → Nat}

/-- Only texts of which nothing is taken count. -/
theorem congr (h : Measures scan openLength)
    (heq : ∀ cs, scan cs = 0 → openLength' cs = openLength cs) : Measures scan openLength' where
  completable hscan := by
    rw [heq _ hscan]
    exact h.completable hscan
  fits hscan hq hpos := by
    rw [heq _ hscan]
    exact h.fits hscan hq hpos

/-- Two characters settle whether something is taken. Then a text that is refused
fits up to its first character, if that may be followed by another one. -/
theorem of_mark {mark : Char → Bool}
    (hfirst : ∀ {c cs}, 0 < scan (c :: cs) → mark c = true ∨ ∀ ds, 0 < scan (c :: ds))
    (hsecond : ∀ {c d cs}, 0 < scan (c :: d :: cs) → ∀ ds, 0 < scan (c :: d :: ds))
    (hmark : ∀ c, mark c = true → Completable scan [c]) (hsome : Completable scan []) :
    Measures scan (openMark mark) where
  completable {cs} _ := by
    cases cs with
    | nil => exact hsome
    | cons c cs =>
      cases h : mark c with
      | false => simpa [openMark, h] using hsome
      | true => simpa [openMark, h] using hmark c h
  fits {cs q s} hscan hq hpos := by
    obtain ⟨cs', rfl⟩ := hq
    match q with
    | [] => exact Nat.zero_le _
    | [c] =>
      rcases hfirst hpos with h | h
      · simp [openMark, h]
      · exact absurd (h cs') (by simp_all)
    | c :: d :: q => exact absurd (hsecond hpos (q ++ cs')) (by simp_all)

/-- One character settles whether something is taken. -/
theorem of_head (hfirst : ∀ {c cs}, 0 < scan (c :: cs) → ∀ ds, 0 < scan (c :: ds))
    (hsome : Completable scan []) : Measures scan fun _ => 0 := by
  have h : Measures scan (openMark fun _ => false) :=
    of_mark (fun h => .inr (hfirst h)) (fun h ds => hfirst h (_ :: ds)) nofun hsome
  refine h.congr fun cs _ => ?_
  cases cs <;> rfl

/-- What either of two scanners takes. -/
theorem either (h : Measures scan openLength) (h' : Measures scan' openLength')
    (hle : ∀ cs, scan cs ≤ cs.length) (hle' : ∀ cs, scan' cs ≤ cs.length) :
    Measures (fun cs => max (scan cs) (scan' cs))
      fun cs => max (openLength cs) (openLength' cs) where
  completable {cs} hscan := by
    have hboth := Nat.max_eq_zero_iff.1 hscan
    -- The reading that stays open longer is the one that is completed.
    rcases Nat.le_total (openLength cs) (openLength' cs) with ho | ho
    · obtain ⟨s, hne, hs⟩ := h'.completable hboth.2
      refine ⟨s, ?_, ?_⟩
      · simpa only [Nat.max_eq_right ho] using hne
      · simp only [Nat.max_eq_right ho]
        rw [hs]
        exact Nat.max_eq_right (hle _)
    · obtain ⟨s, hne, hs⟩ := h.completable hboth.1
      refine ⟨s, ?_, ?_⟩
      · simpa only [Nat.max_eq_left ho] using hne
      · simp only [Nat.max_eq_left ho]
        rw [hs]
        exact Nat.max_eq_left (hle' _)
  fits {cs q s} hscan hq hpos := by
    have hboth := Nat.max_eq_zero_iff.1 hscan
    -- Whichever takes more of the completed text gives the bound.
    rcases Nat.le_total (scan' (q ++ s)) (scan (q ++ s)) with hs | hs
    · rw [Nat.max_eq_left hs] at hpos
      exact Nat.le_trans (h.fits hboth.1 hq hpos) (Nat.le_max_left _ _)
    · rw [Nat.max_eq_right hs] at hpos
      exact Nat.le_trans (h'.fits hboth.2 hq hpos) (Nat.le_max_right _ _)

/-- Pieces fit as far as the first piece does. -/
theorem repeated {piece : List Char → Nat} (h : Measures piece openLength) (hnil : piece [] = 0) :
    Measures (pieces piece) openLength := by
  have hzero : ∀ {cs}, pieces piece cs = 0 → piece cs = 0 := by
    intro cs hcs
    by_cases hne : cs = []
    · rw [hne, hnil]
    · exact Nat.eq_zero_of_not_pos fun hpos => absurd hcs ((pieces_pos_iff hne).2 hpos).ne'
  refine ⟨fun {cs} hscan => ?_, fun {cs q s} hscan hq hpos => ?_⟩
  · obtain ⟨s, hne, hs⟩ := h.completable (hzero hscan)
    refine ⟨s, hne, ?_⟩
    have hfirst : piece ((cs.take (openLength cs) ++ s) ++ []) =
        (cs.take (openLength cs) ++ s).length := by
      rw [List.append_nil]
      exact hs
    have hall := pieces_append hne hfirst
    rwa [List.append_nil, pieces_nil, Nat.add_zero] at hall
  · refine h.fits (hzero hscan) hq (?_ : 0 < piece (q ++ s))
    by_cases hne : q ++ s = []
    · rw [hne] at hpos
      exact absurd hpos (Nat.lt_irrefl _)
    · exact (pieces_pos_iff hne).1 hpos

end Measures

end PipeQuery.Scan
