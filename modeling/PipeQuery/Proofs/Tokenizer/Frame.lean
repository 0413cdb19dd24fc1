-- SUMMARY: A run over a text inside another text: the modes below it stay as they are as long as it removes none of them.
import PipeQuery.Proofs.Recognizer.Bracket
import PipeQuery.Proofs.Tokenizer.DepthLimit
import PipeQuery.Proofs.Tokenizer.Layering

/-! # Runs Inside Runs

A text in brackets is read on top of the modes that were open before the bracket, with a
root of its own. A token there does what it does where the text stands alone, if it removes
no more modes than lie above the root and if the bracket behind the text is not read into
it. -/

namespace PipeQuery

/-- How many modes an action takes from the stack. -/
def ModeAction.removes : ModeAction → Nat
  | .push _ => 0
  | .pop | .switch _ => 1

/-- How many modes actions take from the stack together. -/
def ModeAction.removesAll : List ModeAction → Nat
  | [] => 0
  | a :: actions => a.removes + removesAll actions

/-- How many modes a token of a mode removes at most. -/
def Mode.removal (mode : Mode) (kind : TokenKind) : Nat :=
  if mode = .default then 0
  else if mode = .enrichField ∨ mode = .lookupField ∨
      (mode = .expression ∧ kind = .punctuation .closingBracket) then 2
  else 1

theorem Mode.removes_le_of_mem_rules (mode : Mode) :
    ∀ rule ∈ mode.rules, ModeAction.removesAll rule.actions ≤ mode.removal rule.kind := by
  cases mode <;> decide

namespace ModeStack

variable {below : List Mode} {s u : ModeStack}

/-! ## Stacks on Stacks -/

/-- A stack that holds the modes of another one and, below its root, further modes. -/
structure Over (below : List Mode) (s u : ModeStack) : Prop where
  above_eq : u.above = s.above ++ .default :: below
  limit_eq : u.limit = s.limit

theorem Over.current_eq (h : s.Over below u) : u.current = s.current := by
  rw [current, current, h.above_eq]
  cases s.above <;> rfl

theorem Over.depth_lt (h : s.Over below u) : s.depth < u.depth := by
  simp [depth, h.above_eq]

/-- A push that was not counted as refused was granted. -/
theorem push_of_kept {m : Mode} (h : (s.push m).dropped = s.dropped) :
    s.depth < s.limit ∧ (s.push m).above = m :: s.above := by
  rcases Nat.lt_or_ge s.depth s.limit with hroom | hfull
  · exact ⟨hroom, by rw [push_of_room hroom]⟩
  · rw [push_of_full hfull] at h
    exact absurd h (Nat.succ_ne_self _)

/-- Where the deeper stack has room, the other one has room too. -/
theorem Over.push (h : s.Over below u) {m : Mode} (hkept : (u.push m).dropped = u.dropped) :
    (s.push m).Over below (u.push m) := by
  obtain ⟨hroom, habove⟩ := push_of_kept hkept
  have hroom' : s.depth < s.limit := h.limit_eq ▸ Nat.lt_trans h.depth_lt hroom
  refine ⟨?_, by rw [limit_push, limit_push, h.limit_eq]⟩
  rw [habove, h.above_eq, push_of_room hroom']
  rfl

theorem Over.pop (h : s.Over below u) (hne : s.above ≠ []) : s.pop.Over below u.pop where
  above_eq := by
    obtain ⟨m, above, habove⟩ := List.exists_cons_of_ne_nil hne
    simp [ModeStack.pop, h.above_eq, habove]
  limit_eq := h.limit_eq

theorem Over.apply (h : s.Over below u) {a : ModeAction} (hdeep : a.removes ≤ s.above.length)
    (hkept : (u.apply a).dropped = u.dropped) : (s.apply a).Over below (u.apply a) := by
  cases a with
  | push m => exact h.push hkept
  | pop => exact h.pop (List.length_pos_iff.1 hdeep)
  | switch m => exact (h.pop (List.length_pos_iff.1 hdeep)).push hkept

theorem length_above_le_apply (s : ModeStack) (a : ModeAction) :
    s.above.length ≤ (s.apply a).above.length + a.removes := by
  have hpush : ∀ (s : ModeStack) (m : Mode), s.above.length ≤ (s.push m).above.length := by
    intro s m
    unfold push
    split <;> simp
  cases a with
  | push m => exact hpush s m
  | pop =>
    simp only [apply, pop, ModeAction.removes, List.length_tail]
    omega
  | switch m =>
    have hpop := hpush s.pop m
    have htail : s.pop.above.length = s.above.length - 1 := List.length_tail
    simp only [apply, ModeAction.removes]
    omega

theorem length_above_le_applyAll (s : ModeStack) (actions : List ModeAction) :
    s.above.length ≤
      (s.applyAll actions).above.length + ModeAction.removesAll actions := by
  induction actions generalizing s with
  | nil => exact Nat.le_refl _
  | cons a actions ih =>
    have hfirst := length_above_le_apply s a
    have hlater : (s.apply a).above.length ≤
        (s.applyAll (a :: actions)).above.length + ModeAction.removesAll actions :=
      ih (s.apply a)
    rw [ModeAction.removesAll]
    omega

/-- Actions that remove none of the modes below do to them nothing at all. -/
theorem Over.applyAll (h : s.Over below u) {actions : List ModeAction}
    (hdeep : ModeAction.removesAll actions ≤ s.above.length)
    (hkept : (u.applyAll actions).dropped = u.dropped) :
    (s.applyAll actions).Over below (u.applyAll actions) := by
  induction actions generalizing s u with
  | nil => exact h
  | cons a actions ih =>
    rw [ModeAction.removesAll] at hdeep
    have hlength := length_above_le_apply s a
    have hfirst := (counters_le_apply u a).1
    have hlater : (u.apply a).dropped ≤ (u.applyAll (a :: actions)).dropped :=
      (counters_le_applyAll (u.apply a) actions).1
    have hnone : (u.apply a).dropped = u.dropped := by omega
    exact ih (h.apply (by omega) hnone) (by omega) (hkept.trans hnone.symm)

/-- Actions that stay above the root leave it, and all that lies below. -/
theorem Over.lt_depth_applyAll (h : s.Over below u) {actions : List ModeAction}
    (hdeep : ModeAction.removesAll actions ≤ s.above.length) :
    below.length + 1 < (u.applyAll actions).depth := by
  have hlength := u.length_above_le_applyAll actions
  simp only [h.above_eq, List.length_append, List.length_cons] at hlength
  simp only [depth]
  omega

/-- What a mode removes lies above the root. Fields have their command below them; the
bracket of a list is the only one that relies on the text. -/
theorem Layered.removal_le (h : s.Layered) {kind : TokenKind}
    (hlist : s.current = .expression → kind = .punctuation .closingBracket → 2 < s.depth) :
    s.current.removal kind ≤ s.above.length := by
  have hdepth : s.depth = s.above.length + 1 := rfl
  unfold Mode.removal
  split
  case isTrue => exact Nat.zero_le _
  case isFalse hroot =>
    split
    case isTrue hwide =>
      by_cases hfield : s.current = .enrichField ∨ s.current = .lookupField
      · have hentries := congrArg List.length (h.pop_pop_of_field hfield).1
        have hpos := s.pop.pop.depth_pos
        simp only [List.length_cons, length_entries] at hentries
        omega
      · have hlist := hlist (by grind) (by grind)
        omega
    case isFalse =>
      have hentries := congrArg List.length (entries_of_current_ne_default hroot)
      have hpos := s.pop.depth_pos
      simp only [List.length_cons, length_entries] at hentries
      omega

end ModeStack

/-! ## Choices Before a Bracket -/

theorem Mode.avoids_of_mem_rules (mode : Mode) :
    ∀ rule ∈ mode.rules, rule.recognizer.avoids ']' = true := by
  cases mode <;> decide

namespace Tokenizer

section Choices

variable {mode : Mode} {cs : List Char}

/-- Whether a rule of the mode takes a text and the bracket behind it as one token. -/
def Swallows (mode : Mode) (cs : List Char) : Prop :=
  ∃ rule ∈ mode.rules, rule.recognizer.takesBracket = true ∧
    rule.recognizer.matchLength (cs ++ [']']) = cs.length + 1

theorem lt_length_choose_of_swallows (h : Swallows mode cs) :
    cs.length < (choose mode (cs ++ [']'])).length := by
  obtain ⟨rule, hrule, -, hall⟩ := h
  have hle := matchLength_le_choose hrule (cs ++ [']'])
  omega

theorem length_choose_le (hknown : (choose mode cs).kind ≠ .unknown) :
    (choose mode cs).length ≤ cs.length := by
  obtain ⟨rule, -, hchoose⟩ := exists_rule_of_known hknown
  rw [hchoose]
  exact rule.recognizer.matchLength_le_length cs

theorem removes_choose_le (mode : Mode) (cs : List Char) :
    ModeAction.removesAll (choose mode cs).actions ≤ mode.removal (choose mode cs).kind := by
  rcases choose_cases mode cs with ⟨rule, n, hbest, hchoose⟩ | ⟨-, hchoose⟩
  · rw [hchoose]
    exact mode.removes_le_of_mem_rules rule (mem_rules_of_longestMatch hbest)
  · rw [hchoose]
    exact Nat.zero_le _

/-- If the bracket is not swallowed, known text is read as if it were not there. -/
theorem choose_bracket (hne : cs ≠ []) (hno : ¬Swallows mode cs)
    (hknown : (choose mode cs).kind ≠ .unknown) :
    choose mode (cs ++ [']']) = choose mode cs := by
  have hmatch : longestMatch mode.rules (cs ++ [']']) = longestMatch mode.rules cs := by
    refine longestMatch_congr fun rule hrule => ?_
    have havoids := mode.avoids_of_mem_rules rule hrule
    rcases Recognizer.matchLength_bracket havoids hne with hsame | hall
    · exact hsame
    · exact absurd ⟨rule, hrule, hall⟩ hno
  rcases choose_cases mode cs with ⟨rule, n, hbest, -⟩ | ⟨-, hchoose⟩
  · rw [choose, choose, hmatch, hbest]
  · exact absurd (by rw [hchoose]) hknown

end Choices

/-! ## Calls -/

variable {below : List Mode} {t u : Tokenizer}

/-- A run that has a bracket behind the text and further modes below the root of another. -/
structure Inside (below : List Mode) (t u : Tokenizer) : Prop where
  rest_eq : u.rest = t.rest ++ [']']
  modes_over : t.modes.Over below u.modes

theorem Inside.mode_eq (h : Inside below t u) : u.mode = t.mode :=
  h.modes_over.current_eq

/-- A call inside does what it does alone. -/
theorem Inside.next (h : Inside below t u) (hrest : t.rest ≠ []) (hlayered : t.modes.Layered)
    (hknown : t.next.1.kind ≠ .unknown) (hno : ¬Swallows t.mode t.rest)
    (hlist : t.mode = .expression → t.next.1.kind = .punctuation .closingBracket →
      2 < t.modes.depth)
    (hkept : u.next.2.modes.dropped = u.modes.dropped) : Inside below t.next.2 u.next.2 := by
  have hrest' : u.rest ≠ [] := by
    rw [h.rest_eq]
    exact List.append_ne_nil_of_left_ne_nil hrest _
  rw [kind_next hrest] at hknown hlist
  have hchoose : choose u.mode u.rest = choose t.mode t.rest := by
    rw [h.mode_eq, h.rest_eq]
    exact choose_bracket hrest hno hknown
  refine ⟨?_, ?_⟩
  · rw [rest_next, rest_next, hchoose, h.rest_eq]
    exact Scan.drop_bracket (length_choose_le hknown)
  · rw [modes_next hrest', hchoose] at hkept ⊢
    rw [modes_next hrest]
    have hdeep := Nat.le_trans (removes_choose_le t.mode t.rest) (hlayered.removal_le hlist)
    exact h.modes_over.applyAll hdeep hkept

end Tokenizer

end PipeQuery
