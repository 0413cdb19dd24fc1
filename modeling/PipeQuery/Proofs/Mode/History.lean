-- SUMMARY: After any requests a mode stack holds what their pushes and pops leave of the root, and its counters tell what happened on the way.
import PipeQuery.Proofs.Tokenizer.DepthLimit
import PipeQuery.Proofs.Tokenizer.Layering

/-! # Histories of Mode Stacks

Every request comes down to pushes and pops, one after another. On a plain list of modes
they are made again from the beginning, and each of them is kept with the list it found.
The stack keeps its entries and two numbers alone, and these are what the turns tell. -/

namespace PipeQuery

/-! ## Turns -/

/-- A single step of a stack of modes. -/
inductive Move where
  | push (mode : Mode)
  | pop
  deriving DecidableEq, Repr

/-- The moves of an action, in order. -/
def ModeAction.moves : ModeAction → List Move
  | .push m => [.push m]
  | .pop => [.pop]
  | .switch m => [.pop, .push m]

/-- A move, and the modes that it finds, the current one first. -/
structure Turn where
  found : List Mode
  move : Move
  deriving DecidableEq, Repr

namespace Turn

/-- Whether the move is a push that finds no room. -/
def refused (room : Nat) (t : Turn) : Bool :=
  match t.move with
  | .push _ => room ≤ t.found.length
  | .pop => false

/-- The modes after the move. A refused push leaves them as they are, and so does a pop
that finds the root alone. -/
def outcome (room : Nat) (t : Turn) : List Mode :=
  match t.move with
  | .push m => if room ≤ t.found.length then t.found else m :: t.found
  | .pop => if t.found.length ≤ 1 then t.found else t.found.tail

/-- How many modes there are after the move. -/
def depth (room : Nat) (t : Turn) : Nat := (t.outcome room).length

end Turn

/-- The turns of moves that are made one after another. -/
def turns (room : Nat) : List Mode → List Move → List Turn
  | _, [] => []
  | found, move :: moves => ⟨found, move⟩ :: turns room (Turn.outcome room ⟨found, move⟩) moves

/-- The modes after moves that are made one after another. -/
def outcomeOf (room : Nat) (found : List Mode) (moves : List Move) : List Mode :=
  moves.foldl (fun modes move => Turn.outcome room ⟨modes, move⟩) found

namespace ModeStack

variable {s t u : ModeStack}

/-! ## Moves -/

/-- Makes a move. -/
def make (s : ModeStack) : Move → ModeStack
  | .push m => s.push m
  | .pop => s.pop

theorem apply_eq_make (s : ModeStack) (action : ModeAction) :
    s.apply action = action.moves.foldl make s := by
  cases action <;> rfl

theorem applyAll_eq_make (s : ModeStack) (actions : List ModeAction) :
    s.applyAll actions = (actions.flatMap ModeAction.moves).foldl make s := by
  rw [List.foldl_flatMap]
  exact congrArg (fun f => actions.foldl f s) (funext fun s => funext (apply_eq_make s))

@[simp] theorem limit_make (s : ModeStack) (move : Move) : (s.make move).limit = s.limit := by
  cases move <;> simp [make]

theorem entries_make (s : ModeStack) (move : Move) :
    (s.make move).entries = Turn.outcome s.limit ⟨s.entries, move⟩ := by
  cases move with
  | push m =>
    rcases Nat.lt_or_ge s.depth s.limit with hroom | hfull
    · simp [make, entries_push_of_room hroom, Turn.outcome, Nat.not_le.2 hroom]
    · rw [make, push_of_full hfull, Turn.outcome, length_entries]
      exact (if_pos hfull).symm
  | pop => cases habove : s.above <;> simp [make, pop, entries, Turn.outcome, habove]

/-- The turn of a move has the depth that the move leads to. -/
theorem depth_make (s : ModeStack) (move : Move) :
    (s.make move).depth = Turn.depth s.limit ⟨s.entries, move⟩ := by
  rw [← length_entries, entries_make, Turn.depth]

/-- A refused push does not go deeper, and a pop does not either. -/
theorem deepest_make (h : s.depth ≤ s.deepest) (move : Move) :
    (s.make move).deepest = max s.deepest (s.make move).depth := by
  cases move with
  | push m =>
    rw [make]
    rcases Nat.lt_or_ge s.depth s.limit with hroom | hfull
    · rw [push_of_room hroom]
      rfl
    · rw [push_of_full hfull]
      exact (Nat.max_eq_left h).symm
  | pop => exact (Nat.max_eq_left (Nat.le_trans (depth_pop_le s) h)).symm

theorem dropped_make (s : ModeStack) (move : Move) :
    (s.make move).dropped =
      s.dropped + if Turn.refused s.limit ⟨s.entries, move⟩ then 1 else 0 := by
  cases move with
  | push m =>
    simp only [make, Turn.refused, length_entries, decide_eq_true_eq]
    rcases Nat.lt_or_ge s.depth s.limit with hroom | hfull
    · simp [push_of_room hroom, Nat.not_le.2 hroom]
    · simp [push_of_full hfull, hfull]
  | pop => rfl

/-- What the entries and the numbers of a stack say of the turns that led to it from
another one. -/
structure Tells (s : ModeStack) (moves : List Move) (u : ModeStack) : Prop where
  limit_eq : u.limit = s.limit
  depth_le : u.depth ≤ u.deepest
  entries_eq : u.entries = outcomeOf s.limit s.entries moves
  deepest_eq :
    u.deepest = ((turns s.limit s.entries moves).map (Turn.depth s.limit)).foldl max s.deepest
  dropped_eq : u.dropped = s.dropped + (turns s.limit s.entries moves).countP (Turn.refused s.limit)

theorem tells_foldl_make (h : s.depth ≤ s.deepest) (moves : List Move) :
    s.Tells moves (moves.foldl make s) := by
  induction moves generalizing s with
  | nil => exact ⟨rfl, h, rfl, rfl, rfl⟩
  | cons move moves ih =>
    have hdeepest := deepest_make h move
    have hnext : (s.make move).depth ≤ (s.make move).deepest := hdeepest ▸ Nat.le_max_right _ _
    obtain ⟨hlimit, hle, hentries, hdeepest', hdropped⟩ := ih hnext
    rw [limit_make] at hlimit
    rw [limit_make, entries_make] at hentries hdeepest' hdropped
    refine ⟨hlimit, hle, hentries, ?_, ?_⟩
    · rw [List.foldl_cons, hdeepest', hdeepest, depth_make]
      rfl
    · rw [List.foldl_cons, hdropped, dropped_make, turns, List.countP_cons]
      omega

/-! ## Answers -/

theorem tryPush_eq (s : ModeStack) (m : Mode) :
    s.tryPush m = (lostNothing s (s.push m), s.push m) := by
  rcases Nat.lt_or_ge s.depth s.limit with hroom | hfull
  · simp [tryPush, lostNothing, push_of_room hroom, hroom]
  · simp [tryPush, lostNothing, push_of_full hfull, Nat.not_lt.2 hfull]

/-- An answer tells whether a push was lost. -/
theorem tryApply_eq (s : ModeStack) (action : ModeAction) :
    s.tryApply action = (lostNothing s (s.apply action), s.apply action) := by
  cases action with
  | push m => exact tryPush_eq s m
  | pop => simp [tryApply, apply, pop, lostNothing]
  | switch m => exact tryPush_eq s.pop m

/-- Nothing is lost on a way exactly if nothing is lost on either part of it. -/
theorem lostNothing_trans (hst : s.dropped ≤ t.dropped) (htu : t.dropped ≤ u.dropped) :
    lostNothing s u = (lostNothing t u && lostNothing s t) := by
  rw [Bool.eq_iff_iff]
  simp only [lostNothing, Bool.and_eq_true, beq_iff_eq]
  omega

/-- No action of a list is left out, and the answer tells whether any push was lost. -/
theorem tryApplyAll_eq (s : ModeStack) (actions : List ModeAction) :
    s.tryApplyAll actions = (lostNothing s (s.applyAll actions), s.applyAll actions) := by
  induction actions using List.reverseRecOn with
  | nil => exact Prod.ext (beq_self_eq_true s.dropped).symm rfl
  | append_singleton actions action ih =>
    have hbefore := (counters_le_applyAll s actions).1
    have hlast := (counters_le_apply (s.applyAll actions) action).1
    have hrest : s.applyAll (actions ++ [action]) = (s.applyAll actions).apply action := by
      rw [applyAll, List.foldl_append]
      rfl
    rw [tryApplyAll, List.foldl_append, ← tryApplyAll, ih, hrest, lostNothing_trans hbefore hlast]
    simp only [List.foldl_cons, List.foldl_nil, tryApply_eq]

/-! ## Requests -/

/-- What is asked of a stack. -/
inductive Request where
  | push (mode : Mode)
  | pop
  | apply (action : ModeAction)
  | applyAll (actions : List ModeAction)
  deriving DecidableEq, Repr

/-- The moves of a request. Each action of a list makes all of its own, whatever becomes
of those before it. -/
def Request.moves : Request → List Move
  | .push m => [.push m]
  | .pop => [.pop]
  | .apply action => action.moves
  | .applyAll actions => actions.flatMap ModeAction.moves

/-- The stack after a request. -/
def serve (s : ModeStack) : Request → ModeStack
  | .push m => (s.tryPush m).2
  | .pop => s.pop
  | .apply action => (s.tryApply action).2
  | .applyAll actions => (s.tryApplyAll actions).2

/-- The stack after requests, one after another. -/
def serveAll (s : ModeStack) (requests : List Request) : ModeStack :=
  requests.foldl serve s

theorem serve_eq_make (s : ModeStack) (request : Request) :
    s.serve request = request.moves.foldl make s := by
  cases request with
  | push m => rfl
  | pop => rfl
  | apply action => simp only [serve, Request.moves, tryApply_eq, apply_eq_make]
  | applyAll actions => simp only [serve, Request.moves, tryApplyAll_eq, applyAll_eq_make]

theorem serveAll_eq_make (s : ModeStack) (requests : List Request) :
    s.serveAll requests = (requests.flatMap Request.moves).foldl make s := by
  rw [List.foldl_flatMap]
  exact congrArg (fun f => requests.foldl f s) (funext fun s => funext (serve_eq_make s))

theorem WithinLimit.make (h : s.WithinLimit) (move : Move) : (s.make move).WithinLimit := by
  cases move with
  | push m => exact h.push m
  | pop => exact h.pop

theorem WithinLimit.foldl_make (h : s.WithinLimit) (moves : List Move) :
    (moves.foldl ModeStack.make s).WithinLimit := by
  induction moves generalizing s with
  | nil => exact h
  | cons move moves ih => exact ih (h.make move)

/-- Whether an action is refused changes nothing but the count of the refused. -/
theorem apply_cases (h : s.depth ≤ s.limit) (action : ModeAction) :
    (s.apply action).dropped = s.dropped ∨ s.apply action = { s with dropped := s.dropped + 1 } := by
  have hpush : ∀ (s : ModeStack) (m : Mode),
      (s.push m).dropped = s.dropped ∨ s.push m = { s with dropped := s.dropped + 1 } := by
    intro s m
    rcases Nat.lt_or_ge s.depth s.limit with hroom | hfull
    · exact .inl (by rw [push_of_room hroom])
    · exact .inr (push_of_full hfull m)
  cases action with
  | push m => exact hpush s m
  | pop => exact .inl rfl
  | switch m =>
    obtain ⟨above, limit, dropped, deepest⟩ := s
    cases above with
    | nil => exact hpush ⟨[], limit, dropped, deepest⟩ m
    | cons n above =>
      -- Above the root the pop has made room for the push.
      have hroom : (pop ⟨n :: above, limit, dropped, deepest⟩).depth < limit := h
      exact .inl (by rw [apply, push_of_room hroom]; rfl)

/-! ## Histories -/

/-- After any requests a stack holds what their moves leave of the root, within the limit. It
knows how deep the moves have led and how many of them were refused. Whatever is asked of it
next is answered by whether a push is refused, and nothing but the count of them changes where
a single one is. -/
theorem history_of_requests (limit : Nat) (requests : List Request) :
    let room := max limit 1
    let moves := requests.flatMap Request.moves
    let s := (withLimit limit).serveAll requests
    s.entries = outcomeOf room [.default] moves ∧ s.entries.getLast? = some .default ∧
    1 ≤ s.depth ∧ s.depth ≤ room ∧
    s.deepest = ((turns room [.default] moves).map (Turn.depth room)).foldl max 1 ∧
    s.dropped = (turns room [.default] moves).countP (Turn.refused room) ∧
    (∀ action, ((s.tryApply action).1 = true ∧ (s.tryApply action).2.dropped = s.dropped) ∨
      (s.tryApply action).1 = false ∧ (s.tryApply action).2 = { s with dropped := s.dropped + 1 }) ∧
    ∀ actions, ((s.tryApplyAll actions).1 = true ↔ (s.tryApplyAll actions).2.dropped = s.dropped) ∧
      (s.tryApplyAll actions).2.entries =
        outcomeOf room s.entries (actions.flatMap ModeAction.moves) := by
  intro room moves s
  have hs : s = moves.foldl make (withLimit limit) := serveAll_eq_make _ requests
  have hwithin : s.WithinLimit := hs ▸ (withinLimit_withLimit limit).foldl_make moves
  obtain ⟨hlimit, hrecord, hentries, hdeepest, hdropped⟩ : (withLimit limit).Tells moves s :=
    hs ▸ tells_foldl_make (Nat.le_refl _) moves
  have hdepth : s.depth ≤ room := Nat.le_trans hwithin.depth_le (Nat.le_of_eq hlimit)
  refine ⟨hentries, getLast?_entries s, depth_pos s, hdepth, hdeepest, ?_, ?_, ?_⟩
  · exact hdropped.trans (Nat.zero_add _)
  · intro action
    rw [tryApply_eq]
    rcases apply_cases hwithin.depth_le action with hkept | hrefused
    · exact .inl ⟨by simp [lostNothing, hkept], hkept⟩
    · exact .inr ⟨by simp [lostNothing, hrefused], hrefused⟩
  · intro actions
    have hmoves := (tells_foldl_make hrecord (actions.flatMap ModeAction.moves)).entries_eq
    rw [hlimit] at hmoves
    simp only [tryApplyAll_eq, applyAll_eq_make, lostNothing, beq_iff_eq, hmoves]
    exact ⟨eq_comm, rfl⟩

end ModeStack

end PipeQuery
