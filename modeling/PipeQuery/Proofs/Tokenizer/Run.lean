-- SUMMARY: Runs of the tokenizer: what one call does, which runs can be reached, and the steps of a whole run.
import PipeQuery.Tokenizer

/-! # Runs

One call chooses by the mode and the unread text alone. What holds before every
call is shown over the runs that calls reach from the start; what holds of all
the tokens of a run is shown by going back from the end of its text, since every
call but the last leaves less of it. -/

namespace PipeQuery

/-! ## Longest Matches -/

/-- What is chosen depends only on how much each rule takes. -/
theorem longestMatch_congr {rules : List Rule} {cs ds : List Char}
    (h : ∀ rule ∈ rules, rule.recognizer.matchLength cs = rule.recognizer.matchLength ds) :
    longestMatch rules cs = longestMatch rules ds := by
  suffices hfold : ∀ best,
      rules.foldl (Rule.better cs) best = rules.foldl (Rule.better ds) best from hfold none
  induction rules with
  | nil => exact fun _ => rfl
  | cons rule rules ih =>
    intro best
    obtain ⟨hrule, hrules⟩ := List.forall_mem_cons.1 h
    have hbetter : Rule.better cs best rule = Rule.better ds best rule := by
      simp only [Rule.better, hrule]
    rw [List.foldl_cons, List.foldl_cons, hbetter, ih hrules]

/-- A candidate stays if the next rule takes no more than it. -/
theorem Rule.better_cases (cs : List Char) (best : Option (Rule × Nat)) (rule : Rule) :
    (Rule.better cs best rule = best ∧
        rule.recognizer.matchLength cs ≤ best.elim 0 (·.2)) ∨
      (Rule.better cs best rule = some (rule, rule.recognizer.matchLength cs) ∧
        best.elim 0 (·.2) < rule.recognizer.matchLength cs) := by
  unfold Rule.better
  cases best with
  | none => by_cases h : rule.recognizer.matchLength cs = 0 <;> simp [h, Nat.pos_iff_ne_zero]
  | some choice => grind

/-- No rule takes more than the one that is chosen. -/
theorem matchLength_le_longestMatch {rules : List Rule} {cs : List Char} :
    ∀ rule ∈ rules, rule.recognizer.matchLength cs ≤ (longestMatch rules cs).elim 0 (·.2) := by
  suffices hfold : ∀ best, best.elim 0 (·.2) ≤ (rules.foldl (Rule.better cs) best).elim 0 (·.2) ∧
      ∀ rule ∈ rules, rule.recognizer.matchLength cs ≤
        (rules.foldl (Rule.better cs) best).elim 0 (·.2) from (hfold none).2
  induction rules with
  | nil => exact fun _ => ⟨Nat.le_refl _, List.forall_mem_nil _⟩
  | cons rule rules ih =>
    intro best
    obtain ⟨hbest, hrules⟩ := ih (Rule.better cs best rule)
    rw [List.foldl_cons]
    have hboth : best.elim 0 (·.2) ≤ (Rule.better cs best rule).elim 0 (·.2) ∧
        rule.recognizer.matchLength cs ≤ (Rule.better cs best rule).elim 0 (·.2) := by
      rcases Rule.better_cases cs best rule with ⟨hsame, hle⟩ | ⟨hnew, hlt⟩
      · rw [hsame]
        exact ⟨Nat.le_refl _, hle⟩
      · rw [hnew]
        exact ⟨Nat.le_of_lt hlt, Nat.le_refl _⟩
    exact ⟨Nat.le_trans hboth.1 hbest,
      List.forall_mem_cons.2 ⟨Nat.le_trans hboth.2 hbest, hrules⟩⟩

theorem matchLength_le_of_longestMatch {rules : List Rule} {cs : List Char} {best : Rule} {n : Nat}
    (h : longestMatch rules cs = some (best, n)) {rule : Rule} (hrule : rule ∈ rules) :
    rule.recognizer.matchLength cs ≤ n := by
  have hle : rule.recognizer.matchLength cs ≤ _ := matchLength_le_longestMatch rule hrule
  rwa [h] at hle

/-- The chosen rule is the first of those that take as much as it. -/
theorem find?_of_longestMatch {rules : List Rule} {cs : List Char} {rule : Rule} {n : Nat}
    (h : longestMatch rules cs = some (rule, n)) :
    rules.find? (·.recognizer.matchLength cs == n) = some rule := by
  have hpos : 0 < n := (longestMatch_matches h).2.2
  -- A candidate is the choice, or it takes less than the choice and so do the rules before that.
  suffices hfold : ∀ best, rules.foldl (Rule.better cs) best = some (rule, n) →
      best = some (rule, n) ∨ best.elim 0 (·.2) < n ∧
        rules.find? (·.recognizer.matchLength cs == n) = some rule from
    ((hfold none h).resolve_left nofun).2
  clear h
  induction rules with
  | nil => exact fun _ => .inl
  | cons r rules ih =>
    intro best hbest
    rw [List.foldl_cons] at hbest
    have hskip (hless : r.recognizer.matchLength cs < n) :
        (r :: rules).find? (·.recognizer.matchLength cs == n) =
          rules.find? (·.recognizer.matchLength cs == n) := by
      simp [Nat.ne_of_lt hless]
    rcases Rule.better_cases cs best r with ⟨hsame, hle⟩ | ⟨hnew, hlt⟩
    · rw [hsame] at hbest
      refine (ih best hbest).imp_right ?_
      rintro ⟨hless, hfind⟩
      exact ⟨hless, (hskip (by omega)).trans hfind⟩
    · rw [hnew] at hbest
      right
      rcases ih _ hbest with heq | ⟨hless, hfind⟩
      · obtain ⟨rfl, rfl⟩ := Prod.mk.inj (Option.some.inj heq)
        exact ⟨hlt, List.find?_cons_of_pos (beq_self_eq_true _)⟩
      · exact ⟨Nat.lt_trans hlt hless, (hskip hless).trans hfind⟩

namespace Tokenizer

/-! ## Choices -/

/-- The choice is what the best rule says, or unknown text if no rule matches. -/
theorem choose_cases (mode : Mode) (cs : List Char) :
    (∃ rule n, longestMatch mode.rules cs = some (rule, n) ∧
      choose mode cs = ⟨rule.kind, rule.channel, n, rule.actions⟩) ∨
    (longestMatch mode.rules cs = none ∧
      choose mode cs = ⟨.unknown, .default, unknownLength mode.rules cs, []⟩) := by
  unfold choose
  cases h : longestMatch mode.rules cs with
  | none => exact .inr ⟨rfl, rfl⟩
  | some choice => exact .inl ⟨choice.1, choice.2, rfl, rfl⟩

/-- A rule that is chosen is a rule of the mode. -/
theorem mem_rules_of_longestMatch {rules : List Rule} {cs : List Char} {rule : Rule} {n : Nat}
    (h : longestMatch rules cs = some (rule, n)) : rule ∈ rules :=
  (longestMatch_matches h).1

/-- No rule emits the end of input or unknown text. -/
theorem kind_of_mem_rules (mode : Mode) :
    ∀ rule ∈ mode.rules, rule.kind ≠ .eof ∧ rule.kind ≠ .unknown := by
  cases mode <;> decide

theorem choose_kind_ne_eof (mode : Mode) (cs : List Char) : (choose mode cs).kind ≠ .eof := by
  rcases choose_cases mode cs with ⟨rule, n, hbest, hchoose⟩ | ⟨-, hchoose⟩
  · rw [hchoose]
    exact (kind_of_mem_rules mode rule (mem_rules_of_longestMatch hbest)).1
  · rw [hchoose]
    exact nofun

/-- Known text is what some rule takes. -/
theorem exists_rule_of_known {mode : Mode} {cs : List Char}
    (h : (choose mode cs).kind ≠ .unknown) :
    ∃ rule ∈ mode.rules, choose mode cs =
      ⟨rule.kind, rule.channel, rule.recognizer.matchLength cs, rule.actions⟩ := by
  rcases choose_cases mode cs with ⟨rule, n, hbest, hchoose⟩ | ⟨-, hchoose⟩
  · obtain ⟨hrule, hlength, -⟩ := longestMatch_matches hbest
    have hn : rule.recognizer.matchLength cs = n := hlength
    exact ⟨rule, hrule, by rw [hchoose, hn]⟩
  · exact absurd (by rw [hchoose]) h

/-- No rule takes more than the choice does. -/
theorem matchLength_le_choose {mode : Mode} {rule : Rule} (h : rule ∈ mode.rules)
    (cs : List Char) : rule.recognizer.matchLength cs ≤ (choose mode cs).length := by
  rcases choose_cases mode cs with ⟨best, n, hbest, hchoose⟩ | ⟨hnone, -⟩
  · rw [hchoose]
    exact matchLength_le_of_longestMatch hbest h
  · rw [longestMatch_eq_none_iff.1 hnone rule h]
    exact Nat.zero_le _

/-! ## One Call -/

/-- What the next token takes of the unread text. -/
def taken (t : Tokenizer) : List Char :=
  t.rest.take (choose t.mode t.rest).length

theorem taken_ne_nil {t : Tokenizer} (h : t.rest ≠ []) : t.taken ≠ [] := by
  have hpos := choose_length_pos t.mode t.rest
  have hlen := List.length_pos_iff.2 h
  rw [← List.length_pos_iff, taken, List.length_take]
  omega

/-- Nothing of the text is lost between two calls. -/
theorem taken_append_rest_next (t : Tokenizer) : t.taken ++ t.next.2.rest = t.rest := by
  rw [rest_next, taken, List.take_append_drop]

/-- A call before the end of the text, as a whole. -/
theorem next_of_rest_ne_nil {t : Tokenizer} (h : t.rest ≠ []) :
    t.next =
      ({ kind := (choose t.mode t.rest).kind
         text := String.ofList t.taken
         span := .covering t.position t.taken
         channel := (choose t.mode t.rest).channel },
       { t with
         rest := t.rest.drop (choose t.mode t.rest).length
         position := t.position.advanceOver t.taken
         modes := t.modes.applyAll (choose t.mode t.rest).actions }) := by
  unfold next
  split
  case h_1 hrest => exact absurd hrest h
  case h_2 c cs hrest =>
    simp only [taken, Span.covering, hrest]

theorem kind_next {t : Tokenizer} (h : t.rest ≠ []) :
    t.next.1.kind = (choose t.mode t.rest).kind := by
  rw [next_of_rest_ne_nil h]

theorem channel_next {t : Tokenizer} (h : t.rest ≠ []) :
    t.next.1.channel = (choose t.mode t.rest).channel := by
  rw [next_of_rest_ne_nil h]

theorem modes_next {t : Tokenizer} (h : t.rest ≠ []) :
    t.next.2.modes = t.modes.applyAll (choose t.mode t.rest).actions := by
  rw [next_of_rest_ne_nil h]

theorem mode_next {t : Tokenizer} (h : t.rest ≠ []) :
    t.next.2.mode = (t.modes.applyAll (choose t.mode t.rest).actions).current := by
  rw [mode, modes_next h]

theorem position_next {t : Tokenizer} (h : t.rest ≠ []) :
    t.next.2.position = t.position.advanceOver t.taken := by
  rw [next_of_rest_ne_nil h]

theorem finished_next {t : Tokenizer} (h : t.rest ≠ []) : t.next.2.finished = t.finished := by
  rw [next_of_rest_ne_nil h]

theorem next?_of_finished {t : Tokenizer} (h : t.finished = true) : t.next? = (none, t) := by
  simp [next?, h]

theorem next?_of_unfinished {t : Tokenizer} (h : t.finished = false) :
    t.next? = (some t.next.1, t.next.2) := by
  simp [next?, h]

/-! ## Reachable Runs -/

/-- The runs over a text that calls reach from the start. -/
inductive Reachable (maxDepth : Nat) (text : List Char) : Tokenizer → Prop where
  | start : Reachable maxDepth text (start maxDepth text)
  | next {t : Tokenizer} : Reachable maxDepth text t → Reachable maxDepth text t.next.2

/-- The runs that calls reach from a run, which may have begun before. -/
inductive Later : Tokenizer → Tokenizer → Prop where
  | refl (t : Tokenizer) : Later t t
  | next {t u : Tokenizer} : Later t.next.2 u → Later t u

theorem Later.trans {t u v : Tokenizer} (h : Later t u) (h' : Later u v) : Later t v := by
  induction h with
  | refl => exact h'
  | next _ ih => exact .next (ih h')

theorem Reachable.later {maxDepth : Nat} {text : List Char} {t u : Tokenizer}
    (ht : Reachable maxDepth text t) (h : Later t u) : Reachable maxDepth text u := by
  induction h with
  | refl => exact ht
  | next _ ih => exact ih ht.next

/-- What calls reach from the start is what can be reached. -/
theorem reachable_iff_later {maxDepth : Nat} {text : List Char} {t : Tokenizer} :
    Reachable maxDepth text t ↔ Later (.start maxDepth text) t := by
  refine ⟨fun h => ?_, Reachable.start.later⟩
  induction h with
  | start => exact .refl _
  | next _ ih => exact ih.trans (.next (.refl _))

/-- What one call keeps is kept by all calls. -/
theorem Later.keeps {P : Tokenizer → Prop} (hnext : ∀ t, P t → P t.next.2) {t u : Tokenizer}
    (h : Later t u) (ht : P t) : P u := by
  induction h with
  | refl => exact ht
  | next _ ih => exact ih (hnext _ ht)

/-- Nothing but the mark of the end changes behind the text. -/
theorem Later.of_rest_nil {t u : Tokenizer} (h : Later t u) (ht : t.rest = []) :
    u.rest = [] ∧ u.modes = t.modes := by
  refine h.keeps (P := fun u => u.rest = [] ∧ u.modes = t.modes) ?_ ⟨ht, rfl⟩
  rintro v ⟨hrest, hmodes⟩
  rw [next_of_rest_nil hrest]
  exact ⟨hrest, hmodes⟩

/-- A run and the runs that up to `count` calls lead to. -/
def runsFrom : Nat → Tokenizer → List Tokenizer
  | 0, t => [t]
  | count + 1, t => t :: runsFrom count t.next.2

theorem mem_runsFrom_self (count : Nat) (t : Tokenizer) : t ∈ runsFrom count t := by
  cases count <;> exact List.mem_cons_self

/-- Behind the end of the text one call leads to a run that no call changes. -/
theorem Later.eq_of_rest_nil {t u : Tokenizer} (h : Later t u) (ht : t.rest = []) :
    u = t ∨ u = t.next.2 := by
  refine h.keeps (P := fun u => u = t ∨ u = t.next.2) ?_ (.inl rfl)
  rintro v (rfl | rfl)
  · exact .inr rfl
  · right
    have hrest : t.next.2.rest = [] := by rw [next_of_rest_nil ht, ht]
    rw [next_of_rest_nil hrest, next_of_rest_nil ht]

/-- A run and all later ones: each call but the last takes a character. -/
def laterRuns (t : Tokenizer) : List Tokenizer :=
  runsFrom (t.rest.length + 1) t

theorem later_iff_mem_laterRuns {t u : Tokenizer} : Later t u ↔ u ∈ t.laterRuns := by
  unfold laterRuns
  constructor
  · suffices h : ∀ count, t.rest.length < count → Later t u → u ∈ runsFrom count t from
      h _ (Nat.lt_succ_self _)
    intro count hcount hlater
    induction count generalizing t with
    | zero => exact absurd hcount (Nat.not_lt_zero _)
    | succ count ih =>
      cases hlater with
      | refl => exact mem_runsFrom_self _ _
      | next h =>
        refine List.mem_cons_of_mem _ ?_
        -- Behind the end of the text calls lead to one more run and to no other.
        by_cases hrest : t.rest = []
        · have hend : t.next.2.rest = [] := by rw [next_of_rest_nil hrest, hrest]
          have hfixed : t.next.2.next.2 = t.next.2 := by
            rw [next_of_rest_nil hend, next_of_rest_nil hrest]
          obtain rfl : u = t.next.2 := by
            rcases h.eq_of_rest_nil hend with hu | hu
            · exact hu
            · rw [hu, hfixed]
          exact mem_runsFrom_self _ _
        · exact ih (Nat.lt_of_lt_of_le (length_rest_next_lt hrest) (Nat.lt_succ_iff.1 hcount)) h
  · generalize t.rest.length + 1 = count
    intro hmem
    induction count generalizing t with
    | zero =>
      obtain rfl := List.mem_singleton.1 hmem
      exact .refl _
    | succ count ih =>
      rcases List.mem_cons.1 hmem with rfl | hmem
      · exact .refl _
      · exact .next (ih hmem)

/-- What is asked of all later runs, or of some, can be tried out. -/
instance (t : Tokenizer) (P : Tokenizer → Prop) [DecidablePred P] :
    Decidable (∀ u, Later t u → P u) :=
  decidable_of_iff (∀ u ∈ t.laterRuns, P u) (by simp [later_iff_mem_laterRuns])

instance (t : Tokenizer) (P : Tokenizer → Prop) [DecidablePred P] :
    Decidable (∃ u, Later t u ∧ P u) :=
  decidable_of_iff (∃ u ∈ t.laterRuns, P u) (by simp [later_iff_mem_laterRuns])

/-! ## Whole Runs -/

/-- Goes back from the end of the text over all calls of a run. -/
theorem run_induction {motive : Tokenizer → Prop}
    (atEnd : ∀ t, t.rest = [] → motive t)
    (before : ∀ t, t.rest ≠ [] → motive t.next.2 → motive t) (t : Tokenizer) : motive t := by
  induction hn : t.rest.length using Nat.strongRecOn generalizing t with
  | ind n ih =>
    by_cases h : t.rest = []
    · exact atEnd t h
    · exact before t h (ih _ (hn ▸ length_rest_next_lt h) _ rfl)

/-- Steps beyond the end of input are none, so any count that reaches it will do. -/
theorem firstSteps_eq_of_length_lt {t : Tokenizer} {m n : Nat} (hm : t.rest.length < m)
    (hn : t.rest.length < n) : t.firstSteps m = t.firstSteps n := by
  induction m generalizing t n with
  | zero => omega
  | succ m ih =>
    obtain ⟨n, rfl⟩ : ∃ k, n = k + 1 := ⟨n - 1, by omega⟩
    cases hf : t.finished with
    | true => rw [firstSteps_of_finished hf, firstSteps_of_finished hf]
    | false =>
      rw [firstSteps_succ hf, firstSteps_succ hf]
      by_cases hrest : t.rest = []
      · have hdone : t.next.2.finished = true := by rw [next_of_rest_nil hrest]
        rw [firstSteps_of_finished hdone, firstSteps_of_finished hdone]
      · have hlt := length_rest_next_lt hrest
        have hsteps : t.next.2.firstSteps m = t.next.2.firstSteps n :=
          ih (by omega) (by omega)
        rw [hsteps]

/-- Whether the next token is the end of input is seen from the unread text. -/
theorem isEof_next_iff (t : Tokenizer) : t.next.1.isEof = true ↔ t.rest = [] := by
  constructor
  · intro heof
    refine Decidable.not_not.1 fun hrest => ?_
    rw [next_of_rest_ne_nil hrest] at heof
    exact choose_kind_ne_eof _ _ (beq_iff_eq.1 heof)
  · intro hrest
    rw [next_of_rest_nil hrest]
    rfl

theorem steps_of_rest_nil {t : Tokenizer} (hf : t.finished = false) (h : t.rest = []) :
    t.steps = [{ mode := t.mode, token := .eof t.position, modes := t.modes }] := by
  have hdone : t.next.2.finished = true := by rw [next_of_rest_nil h]
  rw [steps, firstSteps_succ hf, firstSteps_of_finished hdone, next_of_rest_nil h]

theorem steps_of_rest_ne_nil {t : Tokenizer} (hf : t.finished = false) (h : t.rest ≠ []) :
    t.steps =
      { mode := t.mode, token := t.next.1, modes := t.next.2.modes } :: t.next.2.steps := by
  have hlt := length_rest_next_lt h
  rw [steps, firstSteps_succ hf, steps, firstSteps_eq_of_length_lt hlt (Nat.lt_succ_self _)]

/-- A step of a run is a call on a later run. -/
theorem exists_later_of_mem_steps {t : Tokenizer} (hf : t.finished = false) {s : Step}
    (h : s ∈ t.steps) :
    ∃ u, Later t u ∧ s = { mode := u.mode, token := u.next.1, modes := u.next.2.modes } := by
  induction t using run_induction with
  | atEnd t hrest =>
    rw [steps_of_rest_nil hf hrest, List.mem_singleton] at h
    refine ⟨t, .refl t, ?_⟩
    rw [h, next_of_rest_nil hrest]
  | before t hrest ih =>
    rw [steps_of_rest_ne_nil hf hrest] at h
    rcases List.mem_cons.1 h with rfl | h
    · exact ⟨t, .refl t, rfl⟩
    · obtain ⟨u, hlater, hs⟩ := ih (by rw [finished_next hrest, hf]) h
      exact ⟨u, .next hlater, hs⟩

theorem tokens_of_rest_nil {t : Tokenizer} (hf : t.finished = false) (h : t.rest = []) :
    t.tokens = [.eof t.position] := by
  simp [tokens, steps_of_rest_nil hf h]

theorem tokens_of_rest_ne_nil {t : Tokenizer} (hf : t.finished = false) (h : t.rest ≠ []) :
    t.tokens = t.next.1 :: t.next.2.tokens := by
  simp [tokens, steps_of_rest_ne_nil hf h]

end Tokenizer

end PipeQuery
