-- SUMMARY: The table of comment ends read as a recursion over the text, and when a comment body ends at all.
import Mathlib.Data.List.Infix
import PipeQuery.Recognizer.Match

/-! # Ends of Block Comments

The table that is filled from the right holds, for every ending of a text, what
remains behind a comment body that begins there. Read that way it obeys the rules
of comments directly: the body closes, or opens another comment, or goes on. -/

namespace PipeQuery.Comment

/-! ## Entries -/

/-- How many characters remain behind a body that begins a text, if it ends. -/
def remains? (cs : List Char) : Option Nat :=
  (ends cs).back?.join

theorem bodyLength?_eq (cs : List Char) :
    bodyLength? cs = (remains? cs).map (cs.length - ·) := rfl

@[simp] theorem ends_nil : ends [] = #[none] := rfl

theorem ends_cons (c : Char) (cs : List Char) :
    ends (c :: cs) = (ends cs).push (endWith c cs.head? (ends cs)) := by
  have hnext : ∀ ds : List Char,
      (ds.foldr (fun c (next, ends) => (some c, ends.push (endWith c next ends)))
        ((none, #[none]) : Option Char × Ends)).1 = ds.head? := by
    intro ds
    cases ds <;> rfl
  rw [ends, List.foldr_cons, ← hnext cs]
  rfl

@[simp] theorem size_ends (cs : List Char) : (ends cs).size = cs.length + 1 := by
  induction cs with
  | nil => rfl
  | cons c cs ih => rw [ends_cons, Array.size_push, ih, List.length_cons]

theorem remains?_cons (c : Char) (cs : List Char) :
    remains? (c :: cs) = endWith c cs.head? (ends cs) := by
  rw [remains?, ends_cons, Array.back?_push, Option.join_some]

/-- The entry of an ending is the answer for that ending alone. -/
theorem getElem?_ends {cs : List Char} {k : Nat} (h : k ≤ cs.length) :
    (ends cs)[k]?.join = remains? (cs.drop (cs.length - k)) := by
  induction cs with
  | nil =>
    obtain rfl : k = 0 := Nat.le_zero.1 h
    rfl
  | cons c cs ih =>
    rcases Nat.lt_or_ge cs.length k with hlt | hle
    · obtain rfl : k = cs.length + 1 := Nat.le_antisymm h hlt
      have hlast : (ends (c :: cs))[cs.length + 1]? = (ends (c :: cs)).back? := by
        rw [Array.back?_eq_getElem?, size_ends]
        rfl
      rw [hlast, List.length_cons, Nat.sub_self, List.drop_zero, remains?]
    · have hbefore : (ends (c :: cs))[k]? = (ends cs)[k]? := by
        rw [ends_cons, Array.getElem?_push_lt (by rw [size_ends]; omega), Array.getElem?_eq_getElem]
      have hdrop : (c :: cs).length - k = (cs.length - k) + 1 := by
        rw [List.length_cons]
        omega
      rw [hbefore, ih hle, hdrop, List.drop_succ_cons]

/-- No entry leaves more than its ending has without the closing characters. -/
theorem add_two_le_of_getElem?_ends {cs : List Char} {i k : Nat}
    (h : (ends cs)[i]?.join = some k) : k + 2 ≤ i := by
  induction cs generalizing i k with
  | nil =>
    cases i <;> exact absurd h nofun
  | cons c cs ih =>
    rw [ends_cons, Array.getElem?_push, size_ends] at h
    -- Only the last entry is new, and it passes on an older one or closes the body here.
    by_cases hi : i = cs.length + 1
    · have hlast : (ends cs).back?.join = (ends cs)[cs.length]?.join := by
        rw [Array.back?_eq_getElem?, size_ends]
        rfl
      rw [if_pos hi, Option.join_some, endWith, hlast, size_ends] at h
      split at h
      case isTrue hclose =>
        obtain ⟨d, ds, rfl⟩ : ∃ d ds, cs = d :: ds := by
          cases cs with
          | nil => exact absurd hclose.2 nofun
          | cons d ds => exact ⟨d, ds, rfl⟩
        rw [List.length_cons] at h hi
        have hk := Option.some.inj h
        omega
      case isFalse =>
        split at h
        case isTrue =>
          rcases Option.or_eq_some_iff.1 h with hnested | ⟨-, hplain⟩
          · obtain ⟨inner, hinner, hk⟩ := Option.bind_eq_some_iff.1 hnested
            have := ih hinner
            have := ih hk
            omega
          · have := ih hplain
            omega
        case isFalse =>
          have := ih h
          omega
    · rw [if_neg hi] at h
      exact ih h

/-- A body takes its closing characters at least. -/
theorem remains?_lt {cs : List Char} {k : Nat} (h : remains? cs = some k) : k + 2 ≤ cs.length := by
  rw [remains?, Array.back?_eq_getElem?, size_ends] at h
  exact add_two_le_of_getElem?_ends h

/-! ## Rules -/

/-- A body ends at the first star and slash. -/
theorem remains?_close (cs : List Char) : remains? ('*' :: '/' :: cs) = some cs.length := by
  rw [remains?_cons, endWith, if_pos ⟨rfl, rfl⟩, size_ends]
  rfl

/-- What begins neither an end nor another comment belongs to the body. -/
theorem remains?_plain {c : Char} {cs : List Char} (hclose : ¬(c = '*' ∧ cs.head? = some '/'))
    (hopen : ¬(c = '/' ∧ cs.head? = some '*')) : remains? (c :: cs) = remains? cs := by
  rw [remains?_cons, endWith, if_neg hclose, if_neg hopen, remains?]

/-- Another comment inside is skipped if it is closed and the body ends behind it,
and else its opening characters are plain text. -/
theorem remains?_open (cs : List Char) :
    remains? ('/' :: '*' :: cs) =
      ((remains? cs).bind fun k => remains? (cs.drop (cs.length - k))).or
        (remains? ('*' :: cs)) := by
  have hinner : (ends ('*' :: cs))[(ends ('*' :: cs)).size - 2]?.join = remains? cs := by
    rw [size_ends, getElem?_ends (by simp)]
    simp
  have hclose : ¬('/' = '*' ∧ ('*' :: cs).head? = some '/') := fun h => absurd h.1 (by decide)
  rw [remains?_cons, endWith, if_neg hclose, if_pos ⟨rfl, rfl⟩, hinner]
  cases hcs : remains? cs with
  | none => rfl
  | some k =>
    have hk := remains?_lt hcs
    have hdrop : ('*' :: cs).length - k = (cs.length - k) + 1 := by
      rw [List.length_cons]
      omega
    have hlookup : (ends ('*' :: cs))[k]?.join = remains? (cs.drop (cs.length - k)) := by
      rw [getElem?_ends (by rw [List.length_cons]; omega), hdrop, List.drop_succ_cons]
    simp only [Option.bind_some, hlookup]
    rfl

/-- How a text begins: it ends a body, or opens another comment, or goes on. -/
theorem cases_of_text (cs : List Char) :
    cs = [] ∨ (∃ ds, cs = '*' :: '/' :: ds) ∨ (∃ ds, cs = '/' :: '*' :: ds) ∨
      ∃ c ds, cs = c :: ds ∧ ¬(c = '*' ∧ ds.head? = some '/') ∧ ¬(c = '/' ∧ ds.head? = some '*') := by
  cases cs with
  | nil => exact .inl rfl
  | cons c cs =>
    by_cases hclose : c = '*' ∧ cs.head? = some '/'
    · obtain ⟨rfl, hhead⟩ := hclose
      obtain ⟨ds, rfl⟩ := List.head?_eq_some_iff.1 hhead
      exact .inr (.inl ⟨ds, rfl⟩)
    by_cases hopen : c = '/' ∧ cs.head? = some '*'
    · obtain ⟨rfl, hhead⟩ := hopen
      obtain ⟨ds, rfl⟩ := List.head?_eq_some_iff.1 hhead
      exact .inr (.inr (.inl ⟨ds, rfl⟩))
    · exact .inr (.inr (.inr ⟨c, cs, rfl, hclose, hopen⟩))

/-! ## Closed Bodies -/

/-- The characters that close a comment. -/
def closing : List Char := ['*', '/']

theorem closing_infix_cons {c : Char} {cs : List Char} :
    closing <:+: c :: cs ↔ (c = '*' ∧ cs.head? = some '/') ∨ closing <:+: cs := by
  rw [List.infix_cons_iff, closing, List.cons_prefix_cons]
  cases cs with
  | nil => simp
  | cons d cs => simp [List.cons_prefix_cons, eq_comm]

/-- A body that ends goes on ending with one more character before it. -/
theorem remains?_of_cons_eq_none {c : Char} {cs : List Char} (h : remains? (c :: cs) = none) :
    remains? cs = none := by
  rw [remains?_cons, endWith] at h
  split at h
  case isTrue => exact absurd h nofun
  case isFalse =>
    split at h
    case isTrue => exact (Option.or_eq_none_iff.1 h).2
    case isFalse => exact h

/-- A body ends at all exactly if its closing characters are there at all. -/
theorem remains?_eq_none_iff {cs : List Char} : remains? cs = none ↔ ¬closing <:+: cs := by
  induction cs with
  | nil => simp [closing, remains?]
  | cons c cs ih =>
    rw [closing_infix_cons, not_or, ← ih]
    by_cases hclose : c = '*' ∧ cs.head? = some '/'
    · obtain ⟨rfl, hhead⟩ := hclose
      rw [List.eq_cons_of_mem_head? hhead, remains?_close]
      simp
    · refine ⟨fun h => ⟨hclose, remains?_of_cons_eq_none h⟩, ?_⟩
      rintro ⟨-, hrest⟩
      by_cases hopen : c = '/' ∧ cs.head? = some '*'
      · obtain ⟨rfl, hhead⟩ := hopen
        rw [List.eq_cons_of_mem_head? hhead] at hrest ⊢
        rw [remains?_open, remains?_of_cons_eq_none hrest, hrest]
        rfl
      · rw [remains?_plain hclose hopen, hrest]

/-- What a body takes ends with the closing characters. -/
theorem exists_body_of_remains? {cs : List Char} {k : Nat} (h : remains? cs = some k) :
    ∃ body behind, cs = body ++ (closing ++ behind) ∧ behind.length = k := by
  induction hn : cs.length using Nat.strongRecOn generalizing cs k with
  | ind n ih =>
    subst hn
    rcases cases_of_text cs with rfl | ⟨ds, rfl⟩ | ⟨ds, rfl⟩ | ⟨c, ds, rfl, hclose, hopen⟩
    · exact absurd h nofun
    · rw [remains?_close] at h
      exact ⟨[], ds, rfl, Option.some.inj h⟩
    · rw [remains?_open] at h
      rcases Option.or_eq_some_iff.1 h with hnested | ⟨-, hplain⟩
      · -- The body ends behind the comment inside.
        obtain ⟨inner, -, hbehind⟩ := Option.bind_eq_some_iff.1 hnested
        have hshorter : (ds.drop (ds.length - inner)).length < ('/' :: '*' :: ds).length := by
          simp only [List.length_drop, List.length_cons]
          omega
        obtain ⟨body, behind, hdrop, hk⟩ := ih _ hshorter hbehind rfl
        refine ⟨'/' :: '*' :: (ds.take (ds.length - inner) ++ body), behind, ?_, hk⟩
        rw [List.cons_append, List.cons_append, List.append_assoc, ← hdrop,
          List.take_append_drop]
      · obtain ⟨body, behind, hrest, hk⟩ := ih _ (Nat.lt_succ_self _) hplain rfl
        exact ⟨'/' :: body, behind, congrArg ('/' :: ·) hrest, hk⟩
    · rw [remains?_plain hclose hopen] at h
      obtain ⟨body, behind, hrest, hk⟩ := ih _ (Nat.lt_succ_self _) h rfl
      exact ⟨c :: body, behind, congrArg (c :: ·) hrest, hk⟩

/-- A body that does not end is closed by the closing characters, and not before:
whatever it opens inside finds nothing to end the outer body with. -/
theorem remains?_append_closing : ∀ {cs : List Char}, ¬closing <:+: cs →
    remains? (cs ++ closing) = some 0
  | [], _ => remains?_close []
  | c :: cs, h => by
    rw [closing_infix_cons, not_or] at h
    obtain ⟨hclose, hrest⟩ := h
    have ih := remains?_append_closing hrest
    have hhead : (cs ++ closing).head? = cs.head? ∨ cs = [] := by
      cases cs with
      | nil => exact .inr rfl
      | cons d cs => exact .inl rfl
    have hclose' : ¬(c = '*' ∧ (cs ++ closing).head? = some '/') := by
      rcases hhead with hhead | rfl
      · rwa [hhead]
      · exact fun h => absurd h.2 (by decide)
    by_cases hopen : c = '/' ∧ (cs ++ closing).head? = some '*'
    · obtain ⟨rfl, hstar⟩ := hopen
      match cs, hrest, ih, hstar with
      | [], _, _, _ => decide
      | d :: ds, hrest, ih, hstar =>
        obtain rfl : d = '*' := Option.some.inj hstar
        rw [closing_infix_cons, not_or] at hrest
        have hinner := remains?_append_closing hrest.2
        rw [List.cons_append, List.cons_append, remains?_open, hinner, Option.bind_some, Nat.sub_zero,
          List.drop_length]
        exact ih
    · rw [List.cons_append, remains?_plain hclose' hopen, ih]

end PipeQuery.Comment
