-- SUMMARY: Which mode can lie on which in a mode stack, and what a pipe therefore removes.
import Mathlib.Data.List.Chain
import PipeQuery.Proofs.Tokenizer.Run

/-! # Layering

The modes of a stack do not follow each other in any order: on the root lie the
arguments of commands, on those of an enrichment its settings and fields, and so
on. Every action of every rule keeps that order, also when the depth limit
refuses a push. The rules that pop twice rely on it, since what they mean to
leave is the mode they are in and the one it always lies on. -/

namespace PipeQuery

/-! ## Layers -/

/-- The modes that can lie directly on a mode. -/
def Mode.layers : Mode → List Mode
  | .default =>
    [.explain, .expression, .from_, .project, .rename, .enrich, .lookup, .mvExpand, .show_, .meta_,
      .metrics, .closingMetrics]
  | .explain => [.default]
  | .expression => [.expression]
  | .enrich => [.setting, .enrichField]
  | .lookup => [.lookupField]
  | _ => []

/-- Whether a rule of a mode can do this and keep the layers. What a pushed mode
lies on is known; what a switched one will lie on is whatever its mode lies on. -/
def Mode.allows (mode : Mode) : List ModeAction → Bool
  | [] | [.pop] | [.pop, .pop] => true
  | [.push m] => m ∈ mode.layers
  | [.push m, .push n] => m ∈ mode.layers && n ∈ m.layers && n ∈ mode.layers
  | [.switch m] => mode != .default && Mode.all.all fun b => mode ∉ b.layers || m ∈ b.layers
  | _ => false

theorem Mode.allows_of_mem_rules (mode : Mode) :
    ∀ rule ∈ mode.rules, mode.allows rule.actions = true := by
  cases mode <;> decide

/-- A switch stands alone among the actions of a rule, and not in the default mode. -/
theorem Mode.eq_nil_of_allows_switch {mode m : Mode} {before after : List ModeAction}
    (h : mode.allows (before ++ .switch m :: after) = true) :
    before = [] ∧ after = [] ∧ mode ≠ .default := by
  rcases before with _ | ⟨a, _ | ⟨b, before⟩⟩
  · cases after with
    | nil =>
      simp only [List.nil_append, allows, Bool.and_eq_true, bne_iff_ne] at h
      exact ⟨rfl, rfl, h.1⟩
    | cons a after => exact absurd h Bool.false_ne_true
  · cases a <;> exact absurd h Bool.false_ne_true
  · cases a <;> cases b <;> cases before <;> exact absurd h Bool.false_ne_true

/-- Where a mode can lie. -/
theorem Mode.below_of_mem_layers {m below : Mode} (h : m ∈ below.layers) :
    below = .default ∧ m ≠ .enrichField ∧ m ≠ .lookupField ∨
    below = .expression ∧ m = .expression ∨
    below = .explain ∧ m = .default ∨
    below = .enrich ∧ (m = .setting ∨ m = .enrichField) ∨
    below = .lookup ∧ m = .lookupField := by
  cases below <;> simp_all [layers]
  grind

/-- A pipe ends the mode it is read in, and with the fields of an enrichment or a
lookup also the mode below. Neither the root nor a setting knows it. -/
theorem Mode.actions_of_pipe (mode : Mode) :
    ∀ rule ∈ mode.rules, rule.kind = .punctuation .pipe →
      mode ≠ .default ∧ mode ≠ .setting ∧
      rule.actions =
        if mode = .enrichField ∨ mode = .lookupField then [.pop, .pop] else [.pop] := by
  cases mode <;> decide

namespace ModeStack

variable {s : ModeStack}

/-- Each mode lies on one that it can lie on, and the limit is kept. -/
structure Layered (s : ModeStack) : Prop where
  chain : s.entries.IsChain fun above below => above ∈ below.layers
  depth_le : s.depth ≤ s.limit

theorem layered_withLimit (limit : Nat) : (withLimit limit).Layered where
  chain := List.isChain_singleton _
  depth_le := Nat.le_max_right _ _

/-! ## Entries -/

theorem getLast?_entries (s : ModeStack) : s.entries.getLast? = some .default := by
  simp [entries]

theorem head?_entries (s : ModeStack) : s.entries.head? = some s.current := by
  cases h : s.above <;> simp [entries, current, h]

theorem current_of_entries {m : Mode} {below : List Mode} (h : s.entries = m :: below) :
    s.current = m := by
  have hhead := s.head?_entries
  rw [h] at hhead
  exact (Option.some.inj hhead).symm

theorem entries_of_current_ne_default (h : s.current ≠ .default) :
    s.entries = s.current :: s.pop.entries := by
  cases habove : s.above with
  | nil => simp [current, habove] at h
  | cons m above => simp [entries, current, pop, habove]

/-! ## Steps -/

theorem entries_push_of_room (h : s.depth < s.limit) (m : Mode) :
    (s.push m).entries = m :: s.entries := by
  rw [push_of_room h]
  rfl

theorem Layered.push (h : s.Layered) {m : Mode} (hm : m ∈ s.current.layers) :
    (s.push m).Layered := by
  rcases Nat.lt_or_ge s.depth s.limit with hroom | hfull
  · refine ⟨?_, ?_⟩
    · rw [entries_push_of_room hroom, List.isChain_cons]
      refine ⟨?_, h.chain⟩
      intro below hbelow
      rw [head?_entries, Option.mem_some_iff] at hbelow
      rwa [← hbelow]
    · rw [limit_push, ← length_entries, entries_push_of_room hroom, List.length_cons,
        length_entries]
      exact hroom
  · rw [push_of_full hfull]
    exact ⟨h.chain, h.depth_le⟩

/-- A refused push leaves the current mode, a granted one replaces it. -/
theorem current_push (s : ModeStack) (m : Mode) :
    (s.push m).current = m ∨ (s.push m).current = s.current := by
  rcases Nat.lt_or_ge s.depth s.limit with hroom | hfull
  · rw [push_of_room hroom]
    exact .inl rfl
  · rw [push_of_full hfull]
    exact .inr rfl

theorem Layered.pop (h : s.Layered) : s.pop.Layered := by
  refine ⟨?_, Nat.le_trans (depth_pop_le s) h.depth_le⟩
  by_cases hroot : s.above = []
  · have hsame : s.pop.entries = s.entries := by simp [entries, ModeStack.pop, hroot]
    rw [hsame]
    exact h.chain
  · obtain ⟨m, above, habove⟩ := List.exists_cons_of_ne_nil hroot
    have htail : s.pop.entries = s.entries.tail := by simp [entries, ModeStack.pop, habove]
    rw [htail]
    exact h.chain.tail

/-- Above the root there is room again after a pop. -/
theorem depth_pop_lt_limit (h : s.Layered) (hmode : s.current ≠ .default) :
    s.pop.depth < s.pop.limit := by
  have hdepth := congrArg List.length (entries_of_current_ne_default hmode)
  rw [List.length_cons, length_entries, length_entries] at hdepth
  have hle := h.depth_le
  rw [limit_pop]
  omega

/-- The mode below the current one is one that it can lie on. -/
theorem current_mem_layers_pop (h : s.Layered) (hmode : s.current ≠ .default) :
    s.current ∈ s.pop.current.layers := by
  have hchain := h.chain
  rw [entries_of_current_ne_default hmode, List.isChain_cons] at hchain
  exact hchain.1 _ (head?_entries s.pop)

theorem Layered.switch (h : s.Layered) {m : Mode} (hmode : s.current ≠ .default)
    (hm : ∀ below : Mode, s.current ∈ below.layers → m ∈ below.layers) :
    (s.apply (.switch m)).Layered :=
  h.pop.push (hm _ (current_mem_layers_pop h hmode))

/-- Whatever a mode allows keeps the layers. -/
theorem Layered.applyAll (h : s.Layered) {actions : List ModeAction}
    (hallows : s.current.allows actions = true) : (s.applyAll actions).Layered := by
  unfold Mode.allows at hallows
  -- One case for each list of actions that a rule may have.
  split at hallows
  case h_1 => exact h
  case h_2 => exact h.pop
  case h_3 => exact h.pop.pop
  case h_4 m => exact h.push (by simpa using hallows)
  case h_5 m n =>
    simp only [Bool.and_eq_true, decide_eq_true_eq] at hallows
    obtain ⟨⟨hm, hn⟩, hsame⟩ := hallows
    refine (h.push hm).push ?_
    rcases current_push s m with hcurrent | hcurrent
    · rwa [hcurrent]
    · rwa [hcurrent]
  case h_6 m =>
    simp only [Bool.and_eq_true, bne_iff_ne, List.all_eq_true, Bool.or_eq_true,
      decide_eq_true_eq] at hallows
    refine h.switch hallows.1 ?_
    intro below hbelow
    rcases hallows.2 below (Mode.mem_all below) with hnot | hin
    · exact absurd hbelow hnot
    · exact hin
  case h_7 => exact absurd hallows Bool.false_ne_true

/-- Where a switch is allowed it replaces the current mode, and nothing is refused. -/
theorem Layered.switch_eq (h : s.Layered) (hmode : s.current ≠ .default) (m : Mode) :
    (s.apply (.switch m)).entries = m :: s.entries.tail ∧
      (s.apply (.switch m)).dropped = s.dropped := by
  have hroom := depth_pop_lt_limit h hmode
  refine ⟨?_, ?_⟩
  · rw [entries_of_current_ne_default hmode]
    exact entries_push_of_room hroom m
  · rw [apply, push_of_room hroom]
    rfl

/-! ## Pipes -/

/-- Below the fields of an enrichment or a lookup lies its own mode, and below
that the root. -/
theorem Layered.pop_pop_of_field (h : s.Layered)
    (hmode : s.current = .enrichField ∨ s.current = .lookupField) :
    s.entries = s.current :: s.pop.current :: s.pop.pop.entries ∧
      s.pop.pop.current = .default := by
  have hne : s.current ≠ .default := by rcases hmode with h | h <;> rw [h] <;> decide
  have hbelow := Mode.below_of_mem_layers (current_mem_layers_pop h hne)
  have hcommand : s.pop.current = .enrich ∨ s.pop.current = .lookup := by grind
  have hne' : s.pop.current ≠ .default := by rcases hcommand with h | h <;> rw [h] <;> decide
  have hroot := Mode.below_of_mem_layers (current_mem_layers_pop h.pop hne')
  refine ⟨?_, by grind⟩
  rw [entries_of_current_ne_default hne, entries_of_current_ne_default hne']

/-- Below every other mode but a setting and the root lies the root, or an expression
below an expression. -/
theorem Layered.pop_of_command (h : s.Layered) (hne : s.current ≠ .default)
    (hfield : ¬(s.current = .enrichField ∨ s.current = .lookupField))
    (hsetting : s.current ≠ .setting) :
    s.pop.current = .default ∨ s.current = .expression ∧ s.pop.current = .expression := by
  have hbelow := Mode.below_of_mem_layers (current_mem_layers_pop h hne)
  grind

end ModeStack

namespace Tokenizer

variable {maxDepth : Nat} {text : List Char} {t : Tokenizer}

/-! ## Layers of a Run -/

theorem mode_of_entries {m : Mode} {below : List Mode} (h : t.modes.entries = m :: below) :
    t.mode = m :=
  ModeStack.current_of_entries h

theorem layered_next (h : t.modes.Layered) : t.next.2.modes.Layered := by
  by_cases hrest : t.rest = []
  · rw [next_of_rest_nil hrest]
    exact h
  · rw [modes_next hrest]
    rcases choose_cases t.mode t.rest with ⟨rule, n, hbest, hchoose⟩ | ⟨-, hchoose⟩
    · rw [hchoose]
      exact h.applyAll (Mode.allows_of_mem_rules _ rule (mem_rules_of_longestMatch hbest))
    · rw [hchoose]
      exact h

theorem Reachable.layered (h : Reachable maxDepth text t) : t.modes.Layered := by
  induction h with
  | start => exact ModeStack.layered_withLimit maxDepth
  | next _ ih => exact layered_next ih

/-- A pipe token comes from a pipe rule of the mode. -/
theorem modes_next_of_pipe (h : t.next.1.kind = .punctuation .pipe) :
    t.mode ≠ .default ∧ t.mode ≠ .setting ∧
      t.next.2.modes = t.modes.applyAll
        (if t.mode = .enrichField ∨ t.mode = .lookupField then [.pop, .pop] else [.pop]) := by
  have hrest : t.rest ≠ [] := by
    intro hnil
    rw [next_of_rest_nil hnil] at h
    exact absurd h nofun
  rw [kind_next hrest] at h
  rw [modes_next hrest]
  rcases choose_cases t.mode t.rest with ⟨rule, n, hbest, hchoose⟩ | ⟨-, hchoose⟩
  · rw [hchoose] at h ⊢
    obtain ⟨hroot, hsetting, hactions⟩ :=
      Mode.actions_of_pipe t.mode rule (mem_rules_of_longestMatch hbest) h
    exact ⟨hroot, hsetting, by rw [hactions]⟩
  · rw [hchoose] at h
    exact absurd h nofun

/-- How many modes a pipe removes that is read in a mode. -/
def pipeWidth (mode : Mode) : Nat :=
  if mode = .enrichField ∨ mode = .lookupField then 2 else 1

/-- A pipe removes the mode it is read in with its command, and leads back to command
position except from an expression inside another. -/
theorem entries_next_of_pipe (hlayered : t.modes.Layered)
    (h : t.next.1.kind = .punctuation .pipe) :
    t.next.2.modes.entries = t.modes.entries.drop (pipeWidth t.mode) ∧
      t.next.2.modes.depth + pipeWidth t.mode = t.modes.depth ∧
      (t.next.2.mode = .default ↔
        ¬(t.mode = .expression ∧ t.modes.entries[1]? = some .expression)) := by
  obtain ⟨hroot, hsetting, hmodes⟩ := modes_next_of_pipe h
  have hmode : t.next.2.mode = t.next.2.modes.current := rfl
  rw [← ModeStack.length_entries, ← ModeStack.length_entries t.modes, hmode, hmodes]
  -- A field lies on its command, and the pipe leaves both.
  by_cases hfield : t.mode = .enrichField ∨ t.mode = .lookupField
  · obtain ⟨hentries, hdefault⟩ := hlayered.pop_pop_of_field hfield
    have hnot : t.mode ≠ .expression := by rcases hfield with h | h <;> rw [h] <;> decide
    have happly : t.modes.applyAll [.pop, .pop] = t.modes.pop.pop := rfl
    rw [if_pos hfield, pipeWidth, if_pos hfield, happly, hentries]
    exact ⟨rfl, rfl, iff_of_true hdefault fun hexpr => hnot hexpr.1⟩
  · have hentries := ModeStack.entries_of_current_ne_default hroot
    have hbelow := hlayered.pop_of_command hroot hfield hsetting
    have hsecond : t.modes.entries[1]? = some t.modes.pop.current := by
      rw [hentries, List.getElem?_cons_succ, ← List.head?_eq_getElem?, ModeStack.head?_entries]
    have happly : t.modes.applyAll [.pop] = t.modes.pop := rfl
    rw [if_neg hfield, pipeWidth, if_neg hfield, happly, hsecond]
    refine ⟨by rw [hentries]; rfl, by rw [hentries]; rfl, ?_⟩
    grind [mode]

/-- Every stack of a run is layered over the root. No switch loses its mode, and each
pipe removes the mode of its command. -/
theorem layers_of_reachable (h : Reachable maxDepth text t) :
    t.modes.entries.getLast? = some .default ∧
    t.modes.entries.IsChain (fun above below => above ∈ below.layers) ∧
    (∀ rule ∈ t.mode.rules, ∀ before m after, rule.actions = before ++ .switch m :: after →
      ((t.modes.applyAll before).apply (.switch m)).entries =
        m :: (t.modes.applyAll before).entries.tail ∧
      ((t.modes.applyAll before).apply (.switch m)).dropped =
        (t.modes.applyAll before).dropped) ∧
    (t.next.1.kind = .punctuation .pipe →
      t.next.2.modes.entries = t.modes.entries.drop (pipeWidth t.mode) ∧
      t.next.2.modes.depth + pipeWidth t.mode = t.modes.depth ∧
      (t.next.2.mode = .default ↔
        ¬(t.mode = .expression ∧ t.modes.entries[1]? = some .expression))) := by
  have hlayered := h.layered
  refine ⟨t.modes.getLast?_entries, hlayered.chain, ?_, entries_next_of_pipe hlayered⟩
  intro rule hrule before m after hactions
  have hallows := Mode.allows_of_mem_rules t.mode rule hrule
  rw [hactions] at hallows
  obtain ⟨rfl, -, hmode⟩ := Mode.eq_nil_of_allows_switch hallows
  exact hlayered.switch_eq hmode m

/-- A pipe behind the fields of a policy leaves the fields and the command. -/
theorem layers_of_pipe_in_enrichField :
    ∃ t, Reachable 3 "enrich on|".toList t ∧ t.mode = .enrichField ∧
      t.next.1.kind = .punctuation .pipe ∧
      t.modes.entries.IsChain (fun above below => above ∈ below.layers) ∧
      t.next.2.modes.entries = t.modes.entries.drop 2 ∧ t.next.2.mode = .default := by
  have hreach : Reachable 3 "enrich on|".toList
      (start 3 "enrich on|".toList).next.2.next.2.next.2 := .next (.next (.next .start))
  have hmode : (start 3 "enrich on|".toList).next.2.next.2.next.2.mode = .enrichField := by
    decide +kernel
  have hpipe : (start 3 "enrich on|".toList).next.2.next.2.next.2.next.1.kind =
      .punctuation .pipe := by
    decide +kernel
  obtain ⟨-, hchain, -, hleaves⟩ := layers_of_reachable hreach
  obtain ⟨hentries, -, hdefault⟩ := hleaves hpipe
  rw [hmode] at hentries hdefault
  exact ⟨_, hreach, hmode, hpipe, hchain, hentries, hdefault.2 fun h => absurd h.1 (by decide)⟩

end Tokenizer

end PipeQuery
