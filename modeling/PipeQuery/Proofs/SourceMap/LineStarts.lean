-- SUMMARY: Line starts of a text and of its beginnings, and what the search among them finds.
import Mathlib.Data.List.Induction
import PipeQuery.Proofs.Text.Offsets
import PipeQuery.SourceMap

/-! # Line Starts

The line starts of a beginning of a text are those of the text that do not lie
behind it. So a search for its size finds the line on which it ends. -/

namespace PipeQuery

/-! ## Searching -/

/-- Numbers that ascend by index. -/
def Ascending (xs : Array Nat) : Prop :=
  ∀ i j y z : Nat, i < j → xs[i]? = some y → xs[j]? = some z → y < z

theorem Ascending.push {xs : Array Nat} (h : Ascending xs) {x : Nat} (hlast : ∀ y ∈ xs, y < x) :
    Ascending (xs.push x) := by
  intro i j y z hij hi hj
  rw [Array.getElem?_push] at hi hj
  by_cases hj' : j = xs.size
  · rw [if_neg (by omega)] at hi
    rw [if_pos hj'] at hj
    exact Option.some.inj hj ▸ hlast y (Array.mem_of_getElem? hi)
  · rw [if_neg hj'] at hj
    have hlt := (Array.getElem?_eq_some_iff.1 hj).1
    rw [if_neg (by omega)] at hi
    exact h i j y z hij hi hj

/-- What the search has ruled out: before the first index all numbers are smaller,
and from the second on all are larger. -/
structure Bracketed (xs : Array Nat) (x lo hi : Nat) : Prop where
  below : ∀ i y : Nat, i < lo → xs[i]? = some y → y < x
  above : ∀ i y : Nat, hi ≤ i → xs[i]? = some y → x < y

/-- What the search answers: an index of the number, or the one that separates the
smaller numbers from the larger ones. -/
def Found (xs : Array Nat) (x : Nat) : Except Nat Nat → Prop
  | .ok i => xs[i]? = some x
  | .error i => i ≤ xs.size ∧ Bracketed xs x i i

theorem found_search {xs : Array Nat} (hasc : Ascending xs) {x lo hi : Nat} (h : hi ≤ xs.size)
    (hle : lo ≤ hi) (hstart : Bracketed xs x lo hi) : Found xs x (search xs x lo hi h) := by
  -- The comparison in the middle holds on its whole half, since the numbers ascend.
  fun_induction search xs x lo hi h with
  | case1 lo hi h hlt mid hmid hcmp ih =>
    have hless := Nat.compare_eq_lt.1 hcmp
    have hget := Array.getElem?_eq_getElem (Nat.lt_of_lt_of_le hmid h)
    refine ih hmid ⟨fun i y hi' hy => ?_, hstart.above⟩
    rcases Nat.lt_succ_iff_lt_or_eq.1 hi' with hbefore | rfl
    · exact Nat.lt_trans (hasc i mid y _ hbefore hy hget) hless
    · rw [hget] at hy
      exact Option.some.inj hy ▸ hless
  | case2 lo hi h hlt mid hmid hcmp =>
    have hget := Array.getElem?_eq_getElem (Nat.lt_of_lt_of_le hmid h)
    rwa [Nat.compare_eq_eq.1 hcmp] at hget
  | case3 lo hi h hlt mid hmid hcmp ih =>
    have hmore := Nat.compare_eq_gt.1 hcmp
    have hget := Array.getElem?_eq_getElem (Nat.lt_of_lt_of_le hmid h)
    refine ih (Nat.le_add_right _ _) ⟨hstart.below, fun i y hi' hy => ?_⟩
    rcases Nat.lt_or_eq_of_le hi' with hbehind | rfl
    · exact Nat.lt_trans hmore (hasc mid i _ y hbehind hget hy)
    · rw [hget] at hy
      exact Option.some.inj hy ▸ hmore
  | case4 lo hi h hlt =>
    obtain rfl : lo = hi := Nat.le_antisymm hle (Nat.not_lt.1 hlt)
    exact ⟨h, hstart⟩

/-- Of ascending numbers, of which the first `n + 1` are not above `x` and the others
are, the search leads to the last that is not above `x`. -/
theorem search_eq {xs : Array Nat} (hasc : Ascending xs) {x n : Nat}
    (hlast : ∃ y, xs[n]? = some y ∧ y ≤ x) (hnext : ∀ i y : Nat, n < i → xs[i]? = some y → x < y) :
    (match search xs x 0 xs.size (Nat.le_refl _) with
      | .ok exact => exact
      | .error next => next - 1) = n := by
  obtain ⟨y, hy, hle⟩ := hlast
  have hstart : Bracketed xs x 0 xs.size := by
    refine ⟨fun i _ hi => absurd hi (Nat.not_lt_zero i), fun i z hi hz => ?_⟩
    rw [Array.getElem?_eq_none hi] at hz
    exact absurd hz nofun
  have hfound := found_search hasc (Nat.le_refl _) (Nat.zero_le _) hstart
  -- The search has found the number itself, or the two numbers that it lies between.
  split
  case h_1 i heq =>
    have hi : xs[i]? = some x := by rwa [heq] at hfound
    rcases Nat.lt_trichotomy i n with hlt | rfl | hgt
    · exact absurd (hasc i n x y hlt hi hy) (Nat.not_lt.2 hle)
    · rfl
    · exact absurd (hnext i x hgt hi) (Nat.lt_irrefl x)
  case h_2 i heq =>
    obtain ⟨hsize, hbracket⟩ : i ≤ xs.size ∧ Bracketed xs x i i := by rwa [heq] at hfound
    have hafter : n < i := by
      refine Nat.not_le.1 fun hin => ?_
      exact absurd (hbracket.above n y hin hy) (Nat.not_lt.2 hle)
    have hbefore : i ≤ n + 1 := by
      refine Nat.not_lt.1 fun hin => ?_
      have hz := Array.getElem?_eq_getElem (Nat.lt_of_lt_of_le hin hsize)
      exact Nat.lt_asymm (hbracket.below (n + 1) _ hin hz) (hnext (n + 1) _ (Nat.lt_succ_self n) hz)
    exact Nat.le_antisymm (Nat.sub_le_of_le_add hbefore) (Nat.le_sub_one_of_lt hafter)

/-! ## Collecting -/

namespace Text

theorem startsStep_size (cs : List Char) (s : Array Nat × Nat) :
    (cs.foldl startsStep s).2 = s.2 + size cs := by
  induction cs generalizing s with
  | nil => rfl
  | cons c cs ih =>
    rw [List.foldl_cons, ih, size_cons, startsStep]
    split
    case isTrue h =>
      rw [h]
      exact Nat.add_assoc _ _ _
    case isFalse => exact Nat.add_assoc _ _ _

/-- A line feed starts a line behind it; no other character starts one. -/
theorem lineStarts_append_singleton (cs : List Char) (c : Char) :
    lineStarts (cs ++ [c]) =
      if c = '\n' then (lineStarts cs).push (size cs + 1) else lineStarts cs := by
  rw [lineStarts, List.foldl_append, List.foldl_cons, List.foldl_nil, startsStep, startsStep_size,
    Nat.zero_add]
  split <;> rfl

@[simp] theorem lineStarts_nil : lineStarts [] = #[0] := rfl

theorem le_size_of_mem_lineStarts {cs : List Char} : ∀ s ∈ lineStarts cs, s ≤ size cs := by
  induction cs using List.reverseRecOn with
  | nil => simp
  | append_singleton cs c ih =>
    have hpos := c.utf8Size_pos
    intro s hs
    rw [lineStarts_append_singleton] at hs
    rw [size_append, size_cons, size_nil, Nat.add_zero]
    split at hs
    · rcases Array.mem_push.1 hs with hs | rfl
      · exact Nat.le_trans (ih s hs) (Nat.le_add_right _ _)
      · exact Nat.add_le_add_left hpos _
    · exact Nat.le_trans (ih s hs) (Nat.le_add_right _ _)

theorem ascending_lineStarts (cs : List Char) : Ascending (lineStarts cs) := by
  induction cs using List.reverseRecOn with
  | nil =>
    intro i j y z hij hi hj
    have hlt := (Array.getElem?_eq_some_iff.1 hj).1
    exact absurd (Nat.lt_of_lt_of_le hij (Nat.le_of_lt_succ hlt)) (Nat.not_lt_zero i)
  | append_singleton cs c ih =>
    rw [lineStarts_append_singleton]
    split
    · exact ih.push fun y hy => Nat.lt_succ_of_le (le_size_of_mem_lineStarts y hy)
    · exact ih

/-- The lines that start behind a beginning are added to its own. -/
theorem lineStarts_append (cs ds : List Char) :
    ∃ later, lineStarts (cs ++ ds) = lineStarts cs ++ later ∧ ∀ s ∈ later, size cs < s := by
  induction ds using List.reverseRecOn with
  | nil => exact ⟨#[], by simp, by simp⟩
  | append_singleton ds d ih =>
    obtain ⟨later, heq, hlater⟩ := ih
    rw [← List.append_assoc, lineStarts_append_singleton, heq]
    split
    · refine ⟨later.push (size (cs ++ ds) + 1), Array.push_append, fun s hs => ?_⟩
      rcases Array.mem_push.1 hs with hs | rfl
      · exact hlater s hs
      · rw [size_append]
        omega
    · exact ⟨later, rfl, hlater⟩

theorem size_lineStarts_pos (cs : List Char) : 0 < (lineStarts cs).size := by
  obtain ⟨later, heq, -⟩ := lineStarts_append [] cs
  rw [List.nil_append] at heq
  rw [heq, Array.size_append]
  exact Nat.add_pos_left Nat.one_pos _

end Text

end PipeQuery
