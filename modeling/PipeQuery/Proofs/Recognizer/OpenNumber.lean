-- SUMMARY: How far a refused text fits a number.
import Mathlib.Data.List.Basic
import PipeQuery.Proofs.Recognizer.Completion

/-! # Open Numbers

A number with neither point nor exponent may go on to have an exponent, whose
digits may be missing too. -/

namespace PipeQuery.Scan

theorem digits_eq_zero_iff {c : Char} {cs : List Char} :
    digits (c :: cs) = 0 ↔ c.isDigit = false := by
  simp [digits, leading_eq_zero_iff]

theorem digits_eq_zero_of_append {c : Char} {cs ds : List Char} (h : digits (c :: cs) = 0) :
    digits (c :: ds) = 0 :=
  digits_eq_zero_iff.2 (digits_eq_zero_iff.1 h)

theorem sign_cons (c : Char) (cs : List Char) :
    sign (c :: cs) = if c = '+' ∨ c = '-' then 1 else 0 := rfl

theorem exponent_pos_iff {c : Char} {cs : List Char} :
    0 < exponent (c :: cs) ↔ (c = 'e' ∨ c = 'E') ∧ 0 < digits (cs.drop (sign cs)) := by
  rw [exponent]
  split
  case isTrue hmark =>
    dsimp only
    split
    case isTrue hzero => simp [hzero]
    case isFalse hsome =>
      refine iff_of_true ?_ ⟨hmark, Nat.pos_of_ne_zero hsome⟩
      omega
  case isFalse hmark => simp [hmark]

/-- The mark of an exponent and its sign lack a digit. -/
theorem exponent_append_digit {c : Char} (hmark : c = 'e' ∨ c = 'E') (cs : List Char) :
    exponent (c :: (cs.take (sign cs) ++ ['1'])) = (c :: (cs.take (sign cs) ++ ['1'])).length := by
  cases cs with
  | nil => rcases hmark with rfl | rfl <;> rfl
  | cons d cs =>
    rw [sign_cons]
    split
    case isTrue hsign => rcases hmark with rfl | rfl <;> rcases hsign with rfl | rfl <;> rfl
    case isFalse => rcases hmark with rfl | rfl <;> rfl

theorem measures_exponent : Measures exponent openExponent where
  completable {cs} hscan := by
    match cs with
    | [] => exact ⟨['e', '1'], by decide⟩
    | c :: cs =>
      by_cases hmark : c = 'e' ∨ c = 'E'
      · have hdigits : digits (cs.drop (sign cs)) = 0 := Nat.eq_zero_of_not_pos fun hpos =>
          absurd hscan (exponent_pos_iff.2 ⟨hmark, hpos⟩).ne'
        rw [openExponent, if_pos hmark, hdigits, Nat.add_zero, Nat.add_comm, List.take_succ_cons]
        exact ⟨['1'], List.cons_ne_nil _ _, exponent_append_digit hmark cs⟩
      · rw [openExponent, if_neg hmark, List.take_zero]
        exact ⟨['e', '1'], by decide⟩
  fits {cs q s} hscan hq hpos := by
    obtain ⟨cs', rfl⟩ := hq
    match q with
    | [] => exact Nat.zero_le _
    | c :: q =>
      rw [List.cons_append, exponent_pos_iff] at hpos
      obtain ⟨hmark, hdigits⟩ := hpos
      have hnone : digits ((q ++ cs').drop (sign (q ++ cs'))) = 0 :=
        Nat.eq_zero_of_not_pos fun hsome => absurd hscan (exponent_pos_iff.2 ⟨hmark, hsome⟩).ne'
      rw [List.cons_append, openExponent, if_pos hmark, List.length_cons]
      -- Digits behind the mark and its sign would have been taken.
      match q with
      | [] => exact Nat.le_trans (Nat.le_add_right 1 _) (Nat.le_add_right _ _)
      | d :: q =>
        rw [List.cons_append, sign_cons] at hnone hdigits ⊢
        by_cases hsign : d = '+' ∨ d = '-'
        · rw [if_pos hsign, List.drop_succ_cons, List.drop_zero] at hnone hdigits
          rw [if_pos hsign]
          cases q with
          | nil => exact Nat.le_add_right 2 _
          | cons e q => exact absurd (digits_eq_zero_of_append hnone) hdigits.ne'
        · rw [if_neg hsign, List.drop_zero] at hnone hdigits
          exact absurd (digits_eq_zero_of_append hnone) hdigits.ne'

section Decimal

variable {ds rest : List Char} (hds : ∀ c ∈ ds, c.isDigit = true)

include hds

theorem digits_append (hrest : ∀ c ∈ rest.head?, c.isDigit = false) :
    digits (ds ++ rest) = ds.length :=
  leading_append_of_head hds hrest

theorem decimal_append_point (rest : List Char) :
    decimal (ds ++ '.' :: rest) =
      if ds.length = 0 ∧ digits rest = 0 then 0
      else ds.length + 1 + digits rest + exponent (rest.drop (digits rest)) := by
  have hpoint : ∀ c ∈ ('.' :: rest).head?, c.isDigit = false := by
    rintro c ⟨⟩
    rfl
  simp only [decimal, digits_append hds hpoint, List.drop_left]

/-- Digits that are followed by neither a digit nor a point. -/
theorem decimal_append (hrest : ∀ c ∈ rest.head?, c.isDigit = false ∧ c ≠ '.') :
    decimal (ds ++ rest) =
      if ds.length = 0 ∨ exponent rest = 0 then 0 else ds.length + exponent rest := by
  rw [decimal, digits_append hds fun c hc => (hrest c hc).1]
  simp only [List.drop_left]
  split
  case h_1 rest => exact absurd rfl (hrest '.' rfl).2
  case h_2 => rfl

theorem openDecimal_append (hrest : ∀ c ∈ rest.head?, c.isDigit = false ∧ c ≠ '.') :
    openDecimal (ds ++ rest) = if ds.length = 0 then 0 else ds.length + openExponent rest := by
  rw [openDecimal, digits_append hds fun c hc => (hrest c hc).1]
  simp only [List.drop_left]
  split
  case h_1 rest => exact absurd rfl (hrest '.' rfl).2
  case h_2 => rfl

end Decimal

theorem decimal_point {rest : List Char} (h : digits rest = 0) : decimal ('.' :: rest) = 0 :=
  (decimal_append_point (List.forall_mem_nil fun c => Char.isDigit c = true) rest).trans
    (if_pos ⟨rfl, h⟩)

theorem openDecimal_point {rest : List Char} (h : digits rest = 0) :
    openDecimal ('.' :: rest) = 1 := by
  have hwhole : digits ('.' :: rest) = 0 := digits_eq_zero_iff.2 rfl
  simp only [openDecimal, hwhole, List.drop_zero, h, and_self, if_true]

/-- What is taken as an exponent begins with its mark. -/
theorem head?_of_exponent_pos {cs : List Char} (h : 0 < exponent cs) :
    ∀ c ∈ cs.head?, c.isDigit = false ∧ c ≠ '.' := by
  cases cs with
  | nil => exact absurd h (Nat.lt_irrefl _)
  | cons c cs =>
    rintro d ⟨⟩
    rcases (exponent_pos_iff.1 h).1 with rfl | rfl <;> decide

/-- A number is refused as a point without a digit, or as digits without an
exponent, of which there may be none. -/
theorem cases_of_decimal_eq_zero {cs : List Char} (h : decimal cs = 0) :
    (∃ rest, cs = '.' :: rest ∧ digits rest = 0) ∨
    ∃ ds rest, cs = ds ++ rest ∧ (∀ c ∈ ds, c.isDigit = true) ∧
      (∀ c ∈ rest.head?, c.isDigit = false ∧ c ≠ '.') ∧ (ds = [] ∨ exponent rest = 0) := by
  obtain ⟨ds, rest, rfl, hds, hrest⟩ := exists_run Char.isDigit cs
  -- Behind the digits comes a point, or what is neither point nor digit.
  by_cases hpoint : ∃ rest', rest = '.' :: rest'
  · obtain ⟨rest, rfl⟩ := hpoint
    rw [decimal_append_point hds] at h
    split at h
    case isTrue hzero =>
      rw [List.eq_nil_of_length_eq_zero hzero.1]
      exact .inl ⟨rest, rfl, hzero.2⟩
    case isFalse => omega
  · have hhead : ∀ c ∈ rest.head?, c.isDigit = false ∧ c ≠ '.' := by
      intro c hc
      refine ⟨hrest c hc, ?_⟩
      rintro rfl
      exact hpoint ⟨_, List.eq_cons_of_mem_head? hc⟩
    refine .inr ⟨ds, rest, rfl, hds, hhead, ?_⟩
    rw [decimal_append hds hhead] at h
    split at h
    case isTrue hzero => exact hzero.imp_left List.eq_nil_of_length_eq_zero
    case isFalse => omega

/-- Digits without an exponent could still have one. -/
theorem completable_decimal_append {ds rest : List Char} (hds : ∀ c ∈ ds, c.isDigit = true)
    (hne : ds ≠ []) (hexp : exponent rest = 0) :
    Completable decimal ((ds ++ rest).take (ds.length + openExponent rest)) := by
  have hpos := List.length_pos_iff.2 hne
  obtain ⟨s, hs, hall⟩ := measures_exponent.completable hexp
  have hsome : 0 < exponent (rest.take (openExponent rest) ++ s) := by
    rw [hall]
    exact List.length_pos_iff.2 hs
  rw [List.take_length_add_append]
  refine ⟨s, by simp [hne], ?_⟩
  rw [List.append_assoc, decimal_append hds (head?_of_exponent_pos hsome),
    if_neg (not_or.2 ⟨hpos.ne', hsome.ne'⟩), hall, ← List.length_append]

/-- What follows digits without an exponent fits as far as it fits an exponent. -/
theorem length_le_openExponent {ds bs cs s : List Char} (hds : ∀ c ∈ ds, c.isDigit = true)
    (hhead : ∀ c ∈ (bs ++ s).head?, c.isDigit = false ∧ c ≠ '.')
    (hexp : ds = [] ∨ exponent (bs ++ cs) = 0) (hpos : 0 < decimal (ds ++ (bs ++ s))) :
    ds.length ≠ 0 ∧ bs.length ≤ openExponent (bs ++ cs) := by
  rw [decimal_append hds hhead] at hpos
  split at hpos
  case isTrue => exact absurd hpos (Nat.lt_irrefl _)
  case isFalse hsome =>
    obtain ⟨hlen, hexp'⟩ := not_or.1 hsome
    have hne : ds ≠ [] := fun hnil => hlen (by rw [hnil]; rfl)
    exact ⟨hlen, measures_exponent.fits (hexp.resolve_left hne) (List.prefix_append _ cs)
      (Nat.pos_of_ne_zero hexp')⟩

theorem measures_decimal : Measures decimal openDecimal where
  completable {cs} hscan := by
    rcases cases_of_decimal_eq_zero hscan with ⟨rest, rfl, hrest⟩ | ⟨ds, rest, rfl, hds, hhead, hexp⟩
    · rw [openDecimal_point hrest, List.take_succ_cons, List.take_zero]
      exact ⟨['1'], by decide⟩
    · rw [openDecimal_append hds hhead]
      by_cases hne : ds = []
      · rw [hne, List.length_nil, if_pos rfl, List.take_zero]
        exact ⟨['1', '.'], by decide⟩
      · rw [if_neg (List.length_pos_iff.2 hne).ne']
        exact completable_decimal_append hds hne (hexp.resolve_left hne)
  fits {cs q s} hscan hq hpos := by
    obtain ⟨cs', hcs⟩ := hq
    rcases cases_of_decimal_eq_zero hscan with ⟨rest, rfl, hrest⟩ | ⟨ds, rest, rfl, hds, hhead, hexp⟩
    · rw [openDecimal_point hrest]
      match q with
      | [] => exact Nat.zero_le _
      | [c] => exact Nat.le_refl _
      | c :: d :: q =>
        obtain ⟨rfl, rfl⟩ := List.cons.inj hcs
        have hnone : digits (d :: q ++ s) = 0 := digits_eq_zero_of_append hrest
        exact absurd hpos (Nat.not_lt.2 (Nat.le_of_eq (decimal_point hnone)))
    · rw [openDecimal_append hds hhead]
      -- The beginning ends within the digits, or goes on behind them.
      rcases List.append_eq_append_iff.1 hcs with ⟨as, rfl, -⟩ | ⟨bs, rfl, rfl⟩
      · rw [List.length_append]
        split <;> omega
      · cases bs with
        | nil =>
          rw [List.append_nil]
          split <;> omega
        | cons c bs =>
          have hhead' : ∀ e ∈ (c :: bs ++ s).head?, e.isDigit = false ∧ e ≠ '.' := hhead
          rw [List.append_assoc] at hpos
          obtain ⟨hlen, hfits⟩ := length_le_openExponent hds hhead' hexp hpos
          rw [if_neg hlen, List.length_append]
          exact Nat.add_le_add_left hfits _

end PipeQuery.Scan
