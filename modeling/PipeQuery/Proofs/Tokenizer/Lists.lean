-- SUMMARY: Lists inside an expression: every bracket that is open holds two modes on the stack, and no other token holds any.
import PipeQuery.Proofs.Tokenizer.Frame

/-! # Lists in Expressions

The bracket that opens a list pushes the mode of expressions twice and the one that
closes it pops twice, so what a list leaves behind is what it found. Between two pipes
nothing else in an expression touches the stack, not even unknown text. Counting brackets
therefore tells the whole stack, as long as none of them is lost to the depth limit. -/

namespace PipeQuery

/-- A pipe leaves an expression and brackets open and close lists in it. No other rule
touches the stack. -/
theorem Mode.actions_of_expression :
    ∀ rule ∈ Mode.expression.rules,
      rule.kind = .punctuation .pipe ∨
      rule.kind = .punctuation .openingBracket ∧
        rule.actions = [.push .expression, .push .expression] ∨
      rule.kind = .punctuation .closingBracket ∧ rule.actions = [.pop, .pop] ∨
      rule.kind ≠ .punctuation .openingBracket ∧ rule.kind ≠ .punctuation .closingBracket ∧
        rule.actions = [] := by
  decide

namespace ModeStack

variable {s : ModeStack}

/-- Above the root a pop removes the first entry. -/
theorem entries_pop {m : Mode} {below : List Mode} (h : s.entries = m :: below)
    (hm : m ≠ .default) : s.pop.entries = below := by
  obtain rfl := current_of_entries h
  have hsplit := entries_of_current_ne_default hm
  rw [h] at hsplit
  exact (List.cons.inj hsplit).2.symm

/-- Two pushes of which none was refused. -/
theorem entries_push_push {m n : Mode} (h : ((s.push m).push n).dropped = s.dropped) :
    ((s.push m).push n).entries = n :: m :: s.entries := by
  have hfirst := (counters_le_push s m).1
  have hsecond := (counters_le_push (s.push m) n).1
  have hkept : (s.push m).dropped = s.dropped := by omega
  have habove := (push_of_kept hkept).2
  have habove' := (push_of_kept (h.trans hkept.symm)).2
  rw [entries, habove', habove]
  rfl

end ModeStack

namespace Tokenizer

variable {t : Tokenizer} {m n : Nat}

/-! ## Stretches of a Run -/

/-- The run after a number of calls. -/
def after (t : Tokenizer) : Nat → Tokenizer
  | 0 => t
  | n + 1 => (t.after n).next.2

/-- The tokens that a number of calls read. -/
def read (t : Tokenizer) : Nat → List Token
  | 0 => []
  | n + 1 => t.read n ++ [(t.after n).next.1]

/-- Any number of calls reaches a later run, and nothing else does. -/
theorem later_iff_exists_after {u : Tokenizer} : Later t u ↔ ∃ n, u = t.after n := by
  constructor
  · intro h
    refine h.keeps (P := fun u => ∃ n, u = t.after n) ?_ ⟨0, rfl⟩
    rintro _ ⟨n, rfl⟩
    exact ⟨n + 1, rfl⟩
  · rintro ⟨n, rfl⟩
    induction n with
    | zero => exact .refl t
    | succ n ih => exact ih.trans (.next (.refl _))

theorem read_prefix_read (h : m ≤ n) : t.read m <+: t.read n := by
  induction h with
  | refl => exact List.prefix_rfl
  | step _ ih => exact ih.trans (List.prefix_append _ _)

theorem dropped_le_next (t : Tokenizer) : t.modes.dropped ≤ t.next.2.modes.dropped := by
  by_cases hrest : t.rest = []
  · rw [next_of_rest_nil hrest]
  · rw [modes_next hrest]
    exact (ModeStack.counters_le_applyAll _ _).1

theorem dropped_le_after (h : m ≤ n) : (t.after m).modes.dropped ≤ (t.after n).modes.dropped := by
  induction h with
  | refl => exact Nat.le_refl _
  | step _ ih => exact ih.trans (dropped_le_next _)

/-! ## Brackets -/

def opened (tokens : List Token) : Nat :=
  tokens.countP (·.kind == .punctuation .openingBracket)

def closed (tokens : List Token) : Nat :=
  tokens.countP (·.kind == .punctuation .closingBracket)

theorem opened_append_singleton (tokens : List Token) (token : Token) :
    opened (tokens ++ [token]) =
      opened tokens + if token.kind = .punctuation .openingBracket then 1 else 0 := by
  simp [opened, List.countP_append, List.countP_singleton]

theorem closed_append_singleton (tokens : List Token) (token : Token) :
    closed (tokens ++ [token]) =
      closed tokens + if token.kind = .punctuation .closingBracket then 1 else 0 := by
  simp [closed, List.countP_append, List.countP_singleton]

/-- The modes of so many open lists on top of others. -/
def nested (lists : Nat) (below : List Mode) : List Mode :=
  List.replicate (2 * lists) .expression ++ below

@[simp] theorem nested_zero (below : List Mode) : nested 0 below = below := rfl

theorem nested_succ (lists : Nat) (below : List Mode) :
    nested (lists + 1) below = .expression :: .expression :: nested lists below := rfl

/-- Calls in an expression that reach no pipe and lose no push, and whose brackets close
no list that was open before. -/
structure Stretch (t : Tokenizer) (n : Nat) : Prop where
  mode_eq : t.mode = .expression
  no_pipe : ∀ token ∈ t.read n, token.kind ≠ .punctuation .pipe
  kept : (t.after n).modes.dropped = t.modes.dropped
  own : ∀ m ≤ n, closed (t.read m) ≤ opened (t.read m)

instance (t : Tokenizer) (n : Nat) : Decidable (t.Stretch n) :=
  decidable_of_iff
    (t.mode = .expression ∧ (∀ token ∈ t.read n, token.kind ≠ .punctuation .pipe) ∧
      (t.after n).modes.dropped = t.modes.dropped ∧
      ∀ m ≤ n, closed (t.read m) ≤ opened (t.read m))
    ⟨fun ⟨mode_eq, no_pipe, kept, own⟩ => ⟨mode_eq, no_pipe, kept, own⟩,
      fun h => ⟨h.mode_eq, h.no_pipe, h.kept, h.own⟩⟩

/-- A stretch is one up to each of its calls. -/
theorem Stretch.of_le (h : t.Stretch n) (hm : m ≤ n) : t.Stretch m where
  mode_eq := h.mode_eq
  no_pipe token htoken := h.no_pipe token ((read_prefix_read hm).subset htoken)
  kept := by
    have hstart : t.modes.dropped ≤ (t.after m).modes.dropped := dropped_le_after (Nat.zero_le m)
    have hend := dropped_le_after (t := t) hm
    rw [h.kept] at hend
    exact Nat.le_antisymm hend hstart
  own k hk := h.own k (hk.trans hm)

/-! ## The Stack in a Stretch -/

/-- A call in an expression opens a list, closes one, or leaves the stack alone. -/
theorem modes_next_of_expression (hmode : t.mode = .expression)
    (hpipe : t.next.1.kind ≠ .punctuation .pipe)
    (hkept : t.next.2.modes.dropped = t.modes.dropped) :
    t.next.1.kind = .punctuation .openingBracket ∧
        t.next.2.modes.entries = .expression :: .expression :: t.modes.entries ∨
      t.next.1.kind = .punctuation .closingBracket ∧ t.next.2.modes = t.modes.pop.pop ∨
      t.next.1.kind ≠ .punctuation .openingBracket ∧
        t.next.1.kind ≠ .punctuation .closingBracket ∧ t.next.2.modes = t.modes := by
  by_cases hrest : t.rest = []
  · rw [next_of_rest_nil hrest]
    exact .inr (.inr ⟨nofun, nofun, rfl⟩)
  rw [kind_next hrest] at hpipe ⊢
  rw [modes_next hrest] at hkept ⊢
  rcases choose_cases t.mode t.rest with ⟨rule, length, hbest, hchoose⟩ | ⟨-, hchoose⟩
  · have hrule := mem_rules_of_longestMatch hbest
    rw [hmode] at hrule
    rw [hchoose] at hpipe hkept ⊢
    -- Pipes are excluded, and every other rule does one of three things.
    rcases Mode.actions_of_expression rule hrule with
      hkind | ⟨hkind, hactions⟩ | ⟨hkind, hactions⟩ | ⟨hopening, hclosing, hactions⟩
    · exact absurd hkind hpipe
    · rw [hactions] at hkept ⊢
      exact .inl ⟨hkind, ModeStack.entries_push_push hkept⟩
    · rw [hactions]
      exact .inr (.inl ⟨hkind, rfl⟩)
    · rw [hactions]
      exact .inr (.inr ⟨hopening, hclosing, rfl⟩)
  · rw [hchoose]
    exact .inr (.inr ⟨nofun, nofun, rfl⟩)

theorem mode_of_nested {lists : Nat} (hmode : t.mode = .expression) {u : Tokenizer}
    (h : u.modes.entries = nested lists t.modes.entries) : u.mode = .expression := by
  cases lists with
  | zero =>
    refine Option.some.inj ?_
    rw [mode, ← ModeStack.head?_entries, h, nested_zero, ModeStack.head?_entries]
    exact congrArg some hmode
  | succ lists => exact mode_of_entries h

/-- After each call of a stretch there are two modes on the old stack for each open list. -/
theorem Stretch.entries_after (h : t.Stretch n) :
    (t.after n).modes.entries =
      nested (opened (t.read n) - closed (t.read n)) t.modes.entries := by
  induction n with
  | zero => rfl
  | succ n ih =>
    have hbefore := h.of_le n.le_succ
    have hentries := ih hbefore
    have hmode := mode_of_nested h.mode_eq hentries
    have hpipe := h.no_pipe _ (List.mem_append_right _ List.mem_cons_self)
    have hown := hbefore.own n (Nat.le_refl n)
    have hown' := h.own (n + 1) (Nat.le_refl _)
    simp only [read, opened_append_singleton, closed_append_singleton] at hown' ⊢
    rcases modes_next_of_expression hmode hpipe (h.kept.trans hbefore.kept.symm) with
      ⟨hkind, hnext⟩ | ⟨hkind, hnext⟩ | ⟨hopening, hclosing, hnext⟩
    · have hlists : opened (t.read n) + 1 - closed (t.read n) =
          opened (t.read n) - closed (t.read n) + 1 := Nat.succ_sub hown
      simpa [after, hkind, hlists, nested_succ, hentries] using hnext
    · -- The list that is closed is one of those that are open.
      have hne : (t.after n).next.1.kind ≠ .punctuation .openingBracket := by
        rw [hkind]
        exact nofun
      simp only [if_neg hne, if_pos hkind, Nat.add_zero] at hown' ⊢
      obtain ⟨lists, hlists⟩ := Nat.exists_eq_add_of_le' hown'
      have hopen : opened (t.read n) - closed (t.read n) = lists + 1 := by omega
      have hfewer : opened (t.read n) - (closed (t.read n) + 1) = lists := by omega
      rw [hopen, nested_succ] at hentries
      rw [after, hnext, hfewer]
      exact ModeStack.entries_pop (ModeStack.entries_pop hentries nofun) nofun
    · simpa [after, hnext, hopening, hclosing] using hentries

/-- In an expression that no pipe ends, where the depth limit refuses nothing and every
bracket that closes a list belongs to one opened since, the stack is after each token the
old one with two modes of expressions for each list that is still open. So the run stays
in an expression, and where the brackets are balanced the stack is the old one. -/
theorem entries_of_stretch {t : Tokenizer} {n : Nat} (h : t.Stretch n) :
    ∀ m ≤ n,
      (t.after m).modes.entries =
        List.replicate (2 * (opened (t.read m) - closed (t.read m))) .expression ++
          t.modes.entries ∧
      (t.after m).mode = .expression ∧
      (opened (t.read m) = closed (t.read m) →
        (t.after m).modes.entries = t.modes.entries) := by
  intro m hm
  have hentries := (h.of_le hm).entries_after
  refine ⟨hentries, mode_of_nested h.mode_eq hentries, ?_⟩
  intro hbalanced
  rw [hentries, hbalanced, Nat.sub_self, nested_zero]

/-- In a list that lies in a list, with unknown text between them, four modes lie on those
of the command, and none of them behind both brackets. -/
theorem entries_of_stretch_in_list :
    ∃ t, Reachable 6 "row a,[!1,[b]] c".toList t ∧ t.Stretch 9 ∧
      (t.after 5).modes.entries =
        [.expression, .expression, .expression, .expression, .expression, .default] ∧
      (t.after 7).modes.entries = t.modes.entries := by
  have hreach : Reachable 6 "row a,[!1,[b]] c".toList
      ((start 6 "row a,[!1,[b]] c".toList).after 4) :=
    reachable_iff_later.2 (later_iff_exists_after.2 ⟨4, rfl⟩)
  have hstretch : ((start 6 "row a,[!1,[b]] c".toList).after 4).Stretch 9 := by decide +kernel
  obtain ⟨hinner, -, -⟩ := entries_of_stretch hstretch 5 (by decide)
  obtain ⟨-, -, hbalanced⟩ := entries_of_stretch hstretch 7 (by decide)
  refine ⟨_, hreach, hstretch, ?_, hbalanced (by decide +kernel)⟩
  rw [hinner]
  decide +kernel

end Tokenizer

end PipeQuery
