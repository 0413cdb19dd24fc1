-- SUMMARY: Runs of one text under two depth limits: they agree exactly as long as the smaller limit refuses nothing.
import PipeQuery.Proofs.Tokenizer.Run

/-! # Depth Limits

Under a larger limit a stack does the same until the smaller limit refuses a push.
That push is granted under the larger one, so from there on the larger stack has been
deeper than the smaller limit. One of the two things can be seen of every run: the
stacks were in step all along, or both runs tell that they have parted. -/

namespace PipeQuery

namespace ModeStack

variable {s : ModeStack} {more : Nat}

/-! ## Limits and Counters -/

/-- Neither the depth nor its record exceeds the limit. -/
structure WithinLimit (s : ModeStack) : Prop where
  depth_le : s.depth ≤ s.limit
  deepest_le : s.deepest ≤ s.limit

theorem withinLimit_withLimit (limit : Nat) : (withLimit limit).WithinLimit where
  depth_le := Nat.le_max_right _ _
  deepest_le := Nat.le_max_right _ _

theorem WithinLimit.push (h : s.WithinLimit) (m : Mode) : (s.push m).WithinLimit := by
  rcases Nat.lt_or_ge s.depth s.limit with hroom | hfull
  · rw [push_of_room hroom]
    exact ⟨hroom, Nat.max_le.2 ⟨h.deepest_le, hroom⟩⟩
  · rw [push_of_full hfull]
    exact ⟨h.depth_le, h.deepest_le⟩

theorem WithinLimit.pop (h : s.WithinLimit) : s.pop.WithinLimit where
  depth_le := Nat.le_trans (depth_pop_le s) h.depth_le
  deepest_le := h.deepest_le

theorem WithinLimit.apply (h : s.WithinLimit) (a : ModeAction) : (s.apply a).WithinLimit := by
  cases a with
  | push m => exact h.push m
  | pop => exact h.pop
  | switch m => exact h.pop.push m

theorem WithinLimit.applyAll (h : s.WithinLimit) (actions : List ModeAction) :
    (s.applyAll actions).WithinLimit := by
  induction actions generalizing s with
  | nil => exact h
  | cons a actions ih => exact ih (h.apply a)

@[simp] theorem limit_applyAll (s : ModeStack) (actions : List ModeAction) :
    (s.applyAll actions).limit = s.limit := by
  induction actions generalizing s with
  | nil => rfl
  | cons a actions ih => exact (ih (s.apply a)).trans (limit_apply s a)

/-- The counters only grow. -/
theorem counters_le_push (s : ModeStack) (m : Mode) :
    s.dropped ≤ (s.push m).dropped ∧ s.deepest ≤ (s.push m).deepest := by
  rcases Nat.lt_or_ge s.depth s.limit with hroom | hfull
  · rw [push_of_room hroom]
    exact ⟨Nat.le_refl _, Nat.le_max_left _ _⟩
  · simp [push_of_full hfull]

theorem counters_le_apply (s : ModeStack) (a : ModeAction) :
    s.dropped ≤ (s.apply a).dropped ∧ s.deepest ≤ (s.apply a).deepest := by
  cases a with
  | push m => exact counters_le_push s m
  | pop => exact ⟨Nat.le_refl _, Nat.le_refl _⟩
  | switch m => exact counters_le_push s.pop m

theorem counters_le_applyAll (s : ModeStack) (actions : List ModeAction) :
    s.dropped ≤ (s.applyAll actions).dropped ∧ s.deepest ≤ (s.applyAll actions).deepest := by
  induction actions generalizing s with
  | nil => exact ⟨Nat.le_refl _, Nat.le_refl _⟩
  | cons a actions ih =>
    obtain ⟨hdropped, hdeepest⟩ := counters_le_apply s a
    obtain ⟨hdropped', hdeepest'⟩ := ih (s.apply a)
    exact ⟨Nat.le_trans hdropped hdropped', Nat.le_trans hdeepest hdeepest'⟩

/-! ## Two Limits -/

/-- The same stack under another limit. -/
def relimit (more : Nat) (s : ModeStack) : ModeStack :=
  { s with limit := more }

/-- A stack and the same stack under a larger limit have done the same, and nothing was
refused. -/
structure InStep (more : Nat) (before after wider : ModeStack) : Prop where
  wider_eq : wider = after.relimit more
  dropped_eq : after.dropped = before.dropped

/-- The smaller limit has refused a push, and under the larger one the stack has been
deeper than the smaller limit. -/
structure Parted (before after wider : ModeStack) : Prop where
  dropped_lt : before.dropped < after.dropped
  limit_lt : before.limit < wider.deepest

theorem inStep_or_parted_push (h : s.WithinLimit) (hmore : s.limit < more) (m : Mode) :
    InStep more s (s.push m) ((s.relimit more).push m) ∨
      Parted s (s.push m) ((s.relimit more).push m) := by
  -- A stack that is full is exactly as deep as its limit, so the larger one has room.
  have hwider : (s.relimit more).depth < (s.relimit more).limit :=
    Nat.lt_of_le_of_lt h.depth_le hmore
  rcases Nat.lt_or_ge s.depth s.limit with hroom | hfull
  · left
    rw [push_of_room hroom, push_of_room hwider]
    exact ⟨rfl, rfl⟩
  · right
    rw [push_of_full hfull, push_of_room hwider]
    exact ⟨Nat.lt_succ_self _,
      Nat.lt_of_lt_of_le (Nat.lt_succ_of_le hfull) (Nat.le_max_right _ _)⟩

theorem inStep_or_parted_apply (h : s.WithinLimit) (hmore : s.limit < more) (a : ModeAction) :
    InStep more s (s.apply a) ((s.relimit more).apply a) ∨
      Parted s (s.apply a) ((s.relimit more).apply a) := by
  cases a with
  | push m => exact inStep_or_parted_push h hmore m
  | pop => exact .inl ⟨rfl, rfl⟩
  | switch m =>
    rcases inStep_or_parted_push h.pop hmore m with hsame | hparted
    · exact .inl ⟨hsame.wider_eq, hsame.dropped_eq⟩
    · exact .inr ⟨hparted.dropped_lt, hparted.limit_lt⟩

theorem inStep_or_parted_applyAll (h : s.WithinLimit) (hmore : s.limit < more)
    (actions : List ModeAction) :
    InStep more s (s.applyAll actions) ((s.relimit more).applyAll actions) ∨
      Parted s (s.applyAll actions) ((s.relimit more).applyAll actions) := by
  induction actions generalizing s with
  | nil => exact .inl ⟨rfl, rfl⟩
  | cons a actions ih =>
    rcases inStep_or_parted_apply h hmore a with hsame | hparted
    · have hlater := ih (h.apply a) (by rwa [limit_apply])
      have hwider : (s.relimit more).applyAll (a :: actions) =
          ((s.apply a).relimit more).applyAll actions := by
        rw [← hsame.wider_eq]
        rfl
      rw [hwider]
      rcases hlater with hlater | hlater
      · exact .inl ⟨hlater.wider_eq, hlater.dropped_eq.trans hsame.dropped_eq⟩
      · refine .inr ⟨?_, ?_⟩
        · rw [← hsame.dropped_eq]
          exact hlater.dropped_lt
        · rw [← limit_apply s a]
          exact hlater.limit_lt
    -- Once parted they stay so, for neither number ever falls.
    · have hdropped := (counters_le_applyAll (s.apply a) actions).1
      have hdeepest := (counters_le_applyAll ((s.relimit more).apply a) actions).2
      exact .inr ⟨Nat.lt_of_lt_of_le hparted.dropped_lt hdropped,
        Nat.lt_of_lt_of_le hparted.limit_lt hdeepest⟩

end ModeStack

namespace Tokenizer

variable {t : Tokenizer} {more : Nat}

/-! ## Two Runs -/

/-- The same run under another depth limit. -/
def relimit (more : Nat) (t : Tokenizer) : Tokenizer :=
  { t with modes := t.modes.relimit more }

/-- The same step under another depth limit. -/
def Step.relimit (more : Nat) (s : Step) : Step :=
  { s with modes := s.modes.relimit more }

theorem withinLimit_next (h : t.modes.WithinLimit) : t.next.2.modes.WithinLimit := by
  by_cases hrest : t.rest = []
  · simpa [next_of_rest_nil hrest] using h
  · rw [modes_next hrest]
    exact h.applyAll _

theorem limit_modes_next (t : Tokenizer) : t.next.2.modes.limit = t.modes.limit := by
  by_cases hrest : t.rest = []
  · rw [next_of_rest_nil hrest]
  · rw [modes_next hrest, ModeStack.limit_applyAll]

/-- The limit has no say in what the next token is, only in what becomes of the stack. -/
theorem next_relimit (t : Tokenizer) (h : t.rest ≠ []) :
    (t.relimit more).next =
      (t.next.1, { t.next.2 with
        modes := (t.modes.relimit more).applyAll (choose t.mode t.rest).actions }) := by
  have hrest : (t.relimit more).rest ≠ [] := h
  rw [next_of_rest_ne_nil h, next_of_rest_ne_nil hrest]
  rfl

theorem inStep_or_parted_next (h : t.modes.WithinLimit) (hmore : t.modes.limit < more)
    (hrest : t.rest ≠ []) :
    ((t.relimit more).next = (t.next.1, t.next.2.relimit more) ∧
        t.next.2.modes.dropped = t.modes.dropped) ∨
      ModeStack.Parted t.modes t.next.2.modes (t.relimit more).next.2.modes := by
  rw [next_relimit t hrest, modes_next hrest]
  rcases ModeStack.inStep_or_parted_applyAll h hmore (choose t.mode t.rest).actions with
    hsame | hparted
  · left
    rw [hsame.wider_eq, ← modes_next hrest]
    exact ⟨rfl, by rw [modes_next hrest, hsame.dropped_eq]⟩
  · exact .inr hparted

/-- What is left of a run is the same under a larger limit and nothing of it is refused,
or both runs tell that they have parted. -/
theorem steps_relimit_or_parted (hf : t.finished = false) (h : t.modes.WithinLimit)
    (hmore : t.modes.limit < more) :
    ((t.relimit more).steps = t.steps.map (Step.relimit more) ∧
        ∀ s ∈ t.steps, s.modes.dropped = t.modes.dropped ∧ s.modes.deepest ≤ t.modes.limit) ∨
      ((∃ s ∈ t.steps, t.modes.dropped < s.modes.dropped) ∧
        ∃ s ∈ (t.relimit more).steps, t.modes.limit < s.modes.deepest) := by
  induction t using run_induction with
  | atEnd t hrest =>
    left
    rw [steps_of_rest_nil hf hrest, steps_of_rest_nil (t := t.relimit more) hf hrest]
    refine ⟨rfl, ?_⟩
    intro s hs
    rw [List.mem_singleton.1 hs]
    exact ⟨rfl, h.deepest_le⟩
  | before t hrest ih =>
    have hlimit := limit_modes_next t
    have hnext := withinLimit_next h
    rw [steps_of_rest_ne_nil hf hrest, steps_of_rest_ne_nil (t := t.relimit more) hf hrest]
    -- Up to the first refused push both runs do the same.
    rcases inStep_or_parted_next h hmore hrest with ⟨hsame, hdropped⟩ | hparted
    · rw [hsame]
      rcases ih (by rw [finished_next hrest, hf]) hnext (by rwa [hlimit]) with
        ⟨hsteps, hnone⟩ | ⟨⟨s, hs, hlost⟩, s', hs', hdeep⟩
      · left
        rw [hsteps]
        refine ⟨rfl, ?_⟩
        intro s hs
        rcases List.mem_cons.1 hs with rfl | hs
        · exact ⟨hdropped, hlimit ▸ hnext.deepest_le⟩
        · rw [← hdropped, ← hlimit]
          exact hnone s hs
      · right
        rw [hdropped] at hlost
        rw [hlimit] at hdeep
        exact ⟨⟨s, List.mem_cons_of_mem _ hs, hlost⟩, s', List.mem_cons_of_mem _ hs', hdeep⟩
    · exact .inr ⟨⟨_, List.mem_cons_self, hparted.dropped_lt⟩,
        _, List.mem_cons_self, hparted.limit_lt⟩

/-- A run loses no push exactly if under a larger limit it never gets deeper than its own.
Then both runs take the same steps, apart from the limit itself, and neither loses a push. -/
theorem steps_eq_of_larger_limit {limit more : Nat} (hpos : 0 < limit) (hmore : limit < more)
    (text : List Char) :
    let run := (start limit text).steps
    let wider := (start more text).steps
    ((∀ s ∈ run, s.modes.dropped = 0) ↔ ∀ s ∈ wider, s.modes.deepest ≤ limit) ∧
      ((∀ s ∈ run, s.modes.dropped = 0) →
        wider = run.map (Step.relimit more) ∧ ∀ s ∈ wider, s.modes.dropped = 0) := by
  have hlimit : (start limit text).modes.limit = limit := Nat.max_eq_left hpos
  have hwider : (start limit text).relimit more = start more text := by
    have hone : max more 1 = more := Nat.max_eq_left (Nat.zero_lt_of_lt hmore)
    simp [relimit, ModeStack.relimit, start, ModeStack.withLimit, hone]
  have hsmaller : (start limit text).modes.limit < more := by rwa [hlimit]
  have hcases := steps_relimit_or_parted rfl (ModeStack.withinLimit_withLimit limit) hsmaller
  rw [hlimit, hwider] at hcases
  rcases hcases with ⟨hsteps, hnone⟩ | ⟨⟨s, hs, hlost⟩, s', hs', hdeep⟩
  · have hrun : ∀ s ∈ (start limit text).steps, s.modes.dropped = 0 := fun s hs => (hnone s hs).1
    have hsame : ∀ s ∈ (start more text).steps, s.modes.dropped = 0 ∧ s.modes.deepest ≤ limit := by
      rw [hsteps]
      intro s' hs'
      obtain ⟨s, hs, rfl⟩ := List.mem_map.1 hs'
      exact hnone s hs
    exact ⟨iff_of_true hrun fun s hs => (hsame s hs).2, fun _ =>
      ⟨hsteps, fun s hs => (hsame s hs).1⟩⟩
  -- The run has lost a push, and the wider one has been deeper.
  · have hdrops : ¬∀ s ∈ (start limit text).steps, s.modes.dropped = 0 := fun hnone =>
      absurd hlost (by simp [hnone s hs])
    refine ⟨iff_of_false hdrops fun hnever => ?_, fun hnone => absurd hnone hdrops⟩
    exact absurd (hnever s' hs') (Nat.not_le.2 hdeep)

/-- A list in an expression takes the stack to a depth of four. That is as many as a limit
of four grants, and a limit of three loses the second push of the bracket. -/
theorem steps_eq_of_list_at_limit :
    (start 8 "row [1]".toList).steps = (start 4 "row [1]".toList).steps.map (Step.relimit 8) ∧
      (∀ s ∈ (start 8 "row [1]".toList).steps, s.modes.dropped = 0) ∧
      ¬∀ s ∈ (start 8 "row [1]".toList).steps, s.modes.deepest ≤ 3 := by
  have hfits : ∀ s ∈ (start 4 "row [1]".toList).steps, s.modes.dropped = 0 := by decide +kernel
  have hlost : ¬∀ s ∈ (start 3 "row [1]".toList).steps, s.modes.dropped = 0 := by decide +kernel
  obtain ⟨-, hsame⟩ :=
    steps_eq_of_larger_limit (by decide : 0 < 4) (by decide : 4 < 8) "row [1]".toList
  obtain ⟨hiff, -⟩ :=
    steps_eq_of_larger_limit (by decide : 0 < 3) (by decide : 3 < 8) "row [1]".toList
  exact ⟨(hsame hfits).1, (hsame hfits).2, fun hnever => hlost (hiff.2 hnever)⟩

end Tokenizer

end PipeQuery
