-- SUMMARY: The stack of active modes, with its depth limit and its counts of refused pushes and of the deepest level.
import PipeQuery.Mode.Basic

/-! # Mode Stack

The default mode is the root of every stack and is never popped, so only the
modes above it are stored, the current one first. A push that would exceed the
limit is refused and counted. -/

namespace PipeQuery

/-- The active modes. -/
structure ModeStack where
  /-- The modes above the root, the current one first. -/
  above : List Mode
  /-- How many modes the stack may hold, the root included. -/
  limit : Nat
  /-- How many pushes the limit refused. -/
  dropped : Nat
  /-- The largest depth so far. -/
  deepest : Nat
  deriving DecidableEq, Repr

namespace ModeStack

/-- The stack that holds the root alone. A limit of 0 counts as 1. -/
def withLimit (limit : Nat) : ModeStack :=
  { above := [], limit := max limit 1, dropped := 0, deepest := 1 }

/-- The mode that decides the next token. -/
def current (s : ModeStack) : Mode :=
  s.above.headD .default

/-- How many modes the stack holds, the root included. -/
def depth (s : ModeStack) : Nat :=
  s.above.length + 1

/-- The modes from the current one down to the root. -/
def entries (s : ModeStack) : List Mode :=
  s.above ++ [.default]

/-! ## Steps -/

/-- Makes a mode the current one, unless the stack is full. -/
def push (s : ModeStack) (m : Mode) : ModeStack :=
  if s.limit ≤ s.depth then { s with dropped := s.dropped + 1 }
  else { s with above := m :: s.above, deepest := max s.deepest (s.depth + 1) }

/-- Returns to the mode below. The root stays. -/
def pop (s : ModeStack) : ModeStack :=
  { s with above := s.above.tail }

def apply (s : ModeStack) : ModeAction → ModeStack
  | .push m => s.push m
  | .pop => s.pop
  | .switch m => s.pop.push m

/-- Performs every action in order, also after one that was refused. -/
def applyAll (s : ModeStack) (actions : List ModeAction) : ModeStack :=
  actions.foldl apply s

/-! ## Answers

Whoever asks for a mode or for actions is told whether all of it was done. -/

/-- Makes a mode the current one, and tells whether the stack had room for it. -/
def tryPush (s : ModeStack) (m : Mode) : Bool × ModeStack :=
  (s.depth < s.limit, s.push m)

/-- Performs one action, and tells whether its push, if it has one, was granted. -/
def tryApply (s : ModeStack) : ModeAction → Bool × ModeStack
  | .push m => s.tryPush m
  | .pop => (true, s.pop)
  | .switch m => s.pop.tryPush m

/-- Performs every action in order, also after one that was refused, and tells
whether every push was granted. -/
def tryApplyAll (s : ModeStack) (actions : List ModeAction) : Bool × ModeStack :=
  actions.foldl
    (fun (granted, s) action =>
      let (done, s) := s.tryApply action
      (done && granted, s))
    (true, s)

/-! ## Depths -/

@[simp] theorem depth_withLimit (limit : Nat) : (withLimit limit).depth = 1 := rfl

@[simp] theorem length_entries (s : ModeStack) : s.entries.length = s.depth := by
  simp [entries, depth]

/-- The root is never popped. -/
theorem depth_pos (s : ModeStack) : 0 < s.depth := by
  simp [depth]

theorem push_of_full {s : ModeStack} (h : s.limit ≤ s.depth) (m : Mode) :
    s.push m = { s with dropped := s.dropped + 1 } := by
  simp [push, h]

theorem push_of_room {s : ModeStack} (h : s.depth < s.limit) (m : Mode) :
    s.push m = { s with above := m :: s.above, deepest := max s.deepest (s.depth + 1) } := by
  simp [push, Nat.not_le.2 h]

@[simp] theorem limit_push (s : ModeStack) (m : Mode) : (s.push m).limit = s.limit := by
  unfold push
  split <;> rfl

@[simp] theorem limit_pop (s : ModeStack) : s.pop.limit = s.limit := rfl

@[simp] theorem limit_apply (s : ModeStack) (a : ModeAction) : (s.apply a).limit = s.limit := by
  cases a <;> simp [apply]

theorem depth_pop_le (s : ModeStack) : s.pop.depth ≤ s.depth := by
  simp [pop, depth]

/-- Whether no push was refused on the way from one stack to another. -/
def lostNothing (before after : ModeStack) : Bool :=
  before.dropped == after.dropped

end ModeStack

end PipeQuery
