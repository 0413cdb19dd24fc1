-- SUMMARY: How a query that stands alone can end, and which endings take in a bracket put behind it.
import PipeQuery.Proofs.Tokenizer.Frame
import PipeQuery.Proofs.Tokenizer.Trivia

/-! # Endings

A bracket behind a query can be taken in by a line comment, by the name of a policy, or by a
path that ends with a slash. If the query is known text whose last token is visible, and if
it ends in an expression, then only a path in command position is left: behind the other two
no expression can follow. -/

namespace PipeQuery

/-- The modes of an enrichment. -/
def Mode.enrichment : List Mode :=
  [.enrich, .enrichField, .setting]

/-- The modes of arguments that can be paths. -/
def Mode.withPaths : List Mode :=
  [.from_, .lookup, .metrics]

/-- A policy is named by its command, and paths stand in command position or in arguments. -/
theorem Mode.rules_of_takesBracket (mode : Mode) :
    ∀ rule ∈ mode.rules, rule.recognizer.takesBracket = true →
      rule.recognizer = .lineComment ∨
      (rule.recognizer = .policyName ∧ mode = .enrich) ∨
      (rule.recognizer = .unquotedSource ∧ (mode = .default ∨ mode ∈ withPaths)) := by
  cases mode <;> decide

/-- Only a pipe leaves an enrichment. -/
theorem Mode.actions_of_enrichment :
    ∀ mode ∈ enrichment, ∀ rule ∈ mode.rules, rule.recognizer = .literal ['|'] ∨
      rule.actions = [] ∨ (∃ m ∈ enrichment, rule.actions = [.push m]) ∨
      mode = .setting ∧ rule.actions = [.pop] := by
  decide

/-- No argument that can be a path is followed by an expression. -/
theorem Mode.actions_of_withPaths :
    ∀ mode ∈ withPaths, ∀ rule ∈ mode.rules, rule.actions = [] ∨ rule.actions = [.pop] ∨
      rule.actions = [.push .lookupField] ∨ rule.actions = [.switch .closingMetrics] := by
  decide

namespace ModeStack

variable {s : ModeStack}

theorem Layered.pop_of_setting (h : s.Layered) (hmode : s.current = .setting) :
    s.pop.current = .enrich := by
  have hlayers : ∀ below : Mode, .setting ∈ below.layers → below = .enrich := by
    intro below
    cases below <;> decide
  refine hlayers _ ?_
  rw [← hmode]
  exact current_mem_layers_pop h (by rw [hmode]; exact nofun)

/-- What a push makes the current mode has every property of its mode and of the one before. -/
theorem current_push_of {P : Mode → Prop} {m : Mode} (hm : P m) (hs : P s.current) :
    P (s.push m).current := by
  rcases current_push s m with hnew | hsame
  · rwa [hnew]
  · rwa [hsame]

end ModeStack

namespace Tokenizer

variable {t u : Tokenizer}

/-! ## Queries -/

/-- What is asked of a query that is read on its own: it is known text, it does not end
with a comment or a blank, and no bracket of it closes what it has not opened. -/
structure SelfContained (t : Tokenizer) : Prop where
  known : ∀ v, Later t v → v.next.1.kind ≠ .unknown
  visible : ∀ v, Later t v → v.rest ≠ [] → v.next.2.rest = [] → v.next.1.channel ≠ .hidden
  own : ∀ v, Later t v → v.mode = .expression →
    v.next.1.kind = .punctuation .closingBracket → 2 < v.modes.depth

/-- Whether a run ends in an expression that lies on the root. -/
def EndsInExpression (t : Tokenizer) : Prop :=
  ∃ v, Later t v ∧ v.rest = [] ∧ v.modes.entries = [.expression, .default]

/-- Whether some command position is followed by nothing but a path that lacks what comes
behind its last slash. -/
def EndsAsPath (t : Tokenizer) : Prop :=
  ∃ v, Later t v ∧ v.mode = .default ∧
    Scan.unquotedSource (v.rest ++ [']']) = v.rest.length + 1

instance (t : Tokenizer) : Decidable t.SelfContained :=
  decidable_of_iff
    ((∀ v, Later t v → v.next.1.kind ≠ .unknown) ∧
      (∀ v, Later t v → v.rest ≠ [] → v.next.2.rest = [] → v.next.1.channel ≠ .hidden) ∧
      ∀ v, Later t v → v.mode = .expression → v.next.1.kind = .punctuation .closingBracket →
        2 < v.modes.depth)
    ⟨fun ⟨known, visible, own⟩ => ⟨known, visible, own⟩, fun h => ⟨h.known, h.visible, h.own⟩⟩

instance (t : Tokenizer) : Decidable t.EndsInExpression :=
  inferInstanceAs (Decidable (∃ v, Later t v ∧ _ ∧ _))

instance (t : Tokenizer) : Decidable t.EndsAsPath :=
  inferInstanceAs (Decidable (∃ v, Later t v ∧ _ ∧ _))

theorem SelfContained.next (h : t.SelfContained) : t.next.2.SelfContained where
  known v hv := h.known v hv.next
  visible v hv := h.visible v hv.next
  own v hv := h.own v hv.next

theorem SelfContained.later (h : t.SelfContained) (hu : Later t u) : u.SelfContained :=
  hu.keeps (fun _ => SelfContained.next) h

theorem endsInExpression_next_iff : t.next.2.EndsInExpression ↔ t.EndsInExpression := by
  refine ⟨fun ⟨v, hv, hends⟩ => ⟨v, hv.next, hends⟩, ?_⟩
  rintro ⟨v, hv, hrest, hends⟩
  cases hv with
  | refl =>
    obtain ⟨hrest', hmodes⟩ := (Later.next (.refl t.next.2)).of_rest_nil hrest
    exact ⟨t.next.2, .refl _, hrest', hmodes ▸ hends⟩
  | next hv => exact ⟨v, hv, hrest, hends⟩

theorem EndsInExpression.later (h : t.EndsInExpression) (hv : Later t u) : u.EndsInExpression :=
  hv.keeps (P := EndsInExpression) (fun _ => endsInExpression_next_iff.2) h

theorem endsInExpression_iff_of_rest_nil (h : t.rest = []) :
    t.EndsInExpression ↔ t.modes.entries = [.expression, .default] := by
  refine ⟨?_, fun hends => ⟨t, .refl t, h, hends⟩⟩
  rintro ⟨v, hv, -, hends⟩
  rwa [(hv.of_rest_nil h).2] at hends

theorem EndsInExpression.mode_eq (h : t.EndsInExpression) (hrest : t.rest = []) :
    t.mode = .expression :=
  mode_of_entries ((endsInExpression_iff_of_rest_nil hrest).1 h)

/-! ## Comments -/

/-- A line comment that goes on to the end is the last token, and hidden. -/
theorem hidden_of_lineComment
    (hall : Scan.lineComment (t.rest ++ [']']) = t.rest.length + 1) :
    t.next.2.rest = [] ∧ t.next.1.channel = .hidden := by
  have hle := Scan.lineComment_le_length t.rest
  rcases Scan.lineComment_bracket t.rest with hsame | ⟨⟨ds, hslashes⟩, htaken, -⟩
  · omega
  have hbegins : Trivia.lineComment.Begins t.rest := ⟨ds, hslashes.symm⟩
  have hchoose : choose t.mode t.rest = _ := choose_of_begins hbegins
  refine ⟨?_, (next_of_begins hbegins).2.1⟩
  rw [rest_next, hchoose, Rule.triviaRecognizer, Recognizer.matchLength, htaken, List.drop_length]

/-! ## Policies -/

/-- A run in an enrichment that no pipe ends. -/
structure InEnrichment (t : Tokenizer) : Prop where
  layered : t.modes.Layered
  no_pipe : '|' ∉ t.rest
  mode_mem : t.mode ∈ Mode.enrichment

theorem InEnrichment.mode_next (h : t.InEnrichment) : t.next.2.mode ∈ Mode.enrichment := by
  by_cases hrest : t.rest = []
  · rw [next_of_rest_nil hrest]
    exact h.mode_mem
  rw [Tokenizer.mode_next hrest]
  rcases choose_cases t.mode t.rest with ⟨rule, n, hbest, hchoose⟩ | ⟨-, hchoose⟩
  · obtain ⟨hrule, hlength, hpos⟩ := longestMatch_matches hbest
    rw [hchoose]
    rcases Mode.actions_of_enrichment t.mode h.mode_mem rule hrule with
      hpipe | hactions | ⟨m, hm, hactions⟩ | ⟨hsetting, hactions⟩
    · -- A rule that takes a pipe cannot have been chosen.
      rw [← hlength, hpipe] at hpos
      exact absurd (List.mem_of_head? (Scan.head?_of_fixed_pos hpos)) h.no_pipe
    · rw [hactions]
      exact h.mode_mem
    · rw [hactions]
      exact ModeStack.current_push_of (P := (· ∈ Mode.enrichment)) hm h.mode_mem
    · rw [hactions]
      exact List.mem_cons.2 (.inl (h.layered.pop_of_setting hsetting))
  · rw [hchoose]
    exact h.mode_mem

theorem InEnrichment.next (h : t.InEnrichment) : t.next.2.InEnrichment where
  layered := layered_next h.layered
  no_pipe := by
    rw [rest_next]
    exact fun hpipe => h.no_pipe (List.mem_of_mem_drop hpipe)
  mode_mem := h.mode_next

/-- An enrichment that no pipe ends goes on to the end. -/
theorem InEnrichment.not_endsInExpression (h : t.InEnrichment) : ¬t.EndsInExpression := by
  rintro ⟨v, hv, -, hends⟩
  have hmode := (hv.keeps (fun _ => InEnrichment.next) h).mode_mem
  rw [mode_of_entries hends] at hmode
  exact absurd hmode (by decide)

/-! ## Paths -/

/-- A slash alone is known in an expression only. -/
theorem mode_of_slash (hknown : t.next.1.kind ≠ .unknown) (hrest : t.rest = ['/']) :
    t.mode = .expression := by
  have htable : ∀ mode : Mode, mode ≠ .expression →
      ∀ rule ∈ mode.rules, rule.recognizer.matchLength ['/'] = 0 := by
    intro mode
    cases mode <;> decide
  have hne : t.rest ≠ [] := by
    rw [hrest]
    exact List.cons_ne_nil _ _
  rw [kind_next hne, hrest] at hknown
  obtain ⟨rule, hrule, hchoose⟩ := exists_rule_of_known hknown
  have hpos := choose_length_pos t.mode ['/']
  by_contra hmode
  rw [hchoose] at hpos
  exact absurd (htable t.mode hmode rule hrule) (Nat.ne_of_gt hpos)

theorem mode_next_of_withPaths (hlayered : t.modes.Layered) (hmode : t.mode ∈ Mode.withPaths)
    (hrest : t.rest ≠ []) (hknown : t.next.1.kind ≠ .unknown) : t.next.2.mode ≠ .expression := by
  have hcurrent : ∀ mode ∈ Mode.withPaths, mode ≠ .default ∧ mode ≠ .expression ∧
      ¬(mode = .enrichField ∨ mode = .lookupField) ∧ mode ≠ .setting := by decide
  obtain ⟨hroot, hne, hfield, hsetting⟩ := hcurrent t.mode hmode
  have hpop : t.modes.pop.current ≠ .expression := by
    rcases hlayered.pop_of_command hroot hfield hsetting with hbelow | ⟨hexpression, -⟩
    · rw [hbelow]
      exact nofun
    · exact absurd hexpression hne
  rw [kind_next hrest] at hknown
  obtain ⟨rule, hrule, hchoose⟩ := exists_rule_of_known hknown
  rw [Tokenizer.mode_next hrest, hchoose]
  rcases Mode.actions_of_withPaths t.mode hmode rule hrule with
    hactions | hactions | hactions | hactions
  · rwa [hactions]
  · rwa [hactions]
  · rw [hactions]
    exact ModeStack.current_push_of (P := (· ≠ .expression)) nofun hne
  · rw [hactions]
    exact ModeStack.current_push_of (P := (· ≠ .expression)) nofun hpop

/-- Behind a path that goes on with a slash and the bracket, the slash is left at most. -/
theorem rest_next_of_path {rule : Rule} (hrule : rule ∈ t.mode.rules)
    (hpath : rule.recognizer = .unquotedSource)
    (hall : Scan.unquotedSource (t.rest ++ [']']) = t.rest.length + 1) :
    t.next.2.rest = [] ∨ t.next.2.rest = ['/'] := by
  have hle := Scan.unquotedSource_le_length t.rest
  rcases Scan.unquotedSource_bracket t.rest with hsame | ⟨⟨path, hslash, htaken⟩, -⟩
  · omega
  have hlength : path.length ≤ (choose t.mode t.rest).length := by
    have hle := matchLength_le_choose hrule t.rest
    rwa [hpath, Recognizer.matchLength, htaken] at hle
  rw [rest_next]
  generalize (choose t.mode t.rest).length = n at hlength
  rw [hslash, List.drop_append, List.drop_eq_nil_of_le hlength, List.nil_append]
  cases n - path.length with
  | zero => exact .inr rfl
  | succ k => exact .inl (by simp)

/-- A path that a slash follows is the end of known text in the arguments of a command. -/
theorem not_endsInExpression_of_path (hlayered : t.modes.Layered) (hself : t.SelfContained)
    (hmode : t.mode ∈ Mode.withPaths) {rule : Rule} (hrule : rule ∈ t.mode.rules)
    (hpath : rule.recognizer = .unquotedSource)
    (hall : Scan.unquotedSource (t.rest ++ [']']) = t.rest.length + 1) : ¬t.EndsInExpression := by
  have hne : t.rest ≠ [] := by
    intro hrest
    rw [hrest] at hall
    exact absurd hall (by decide)
  have hnext := mode_next_of_withPaths hlayered hmode hne (hself.known t (.refl t))
  intro hends
  rw [← endsInExpression_next_iff] at hends
  rcases rest_next_of_path hrule hpath hall with hrest | hrest
  · exact hnext (hends.mode_eq hrest)
  · exact hnext (mode_of_slash (hself.next.known _ (.refl _)) hrest)

/-! ## Swallowed Brackets -/

/-- A known query that ends in an expression and not in a comment can lose the bracket to a
path only. -/
theorem endsAsPath_iff (hlayered : t.modes.Layered) (hself : t.SelfContained)
    (hends : t.EndsInExpression) :
    t.EndsAsPath ↔ ∃ v, Later t v ∧ v.rest ≠ [] ∧ Swallows v.mode v.rest := by
  constructor
  · rintro ⟨v, hv, hmode, hall⟩
    have hrule : ∃ rule ∈ Mode.default.rules, rule.recognizer = .unquotedSource := by decide
    obtain ⟨rule, hrule, hpath⟩ := hrule
    refine ⟨v, hv, ?_, rule, hmode ▸ hrule, by rw [hpath]; rfl, by rw [hpath]; exact hall⟩
    intro hrest
    rw [hrest] at hall
    exact absurd hall (by decide)
  · rintro ⟨v, hv, hrest, rule, hrule, htakes, hall⟩
    have hlayered' : v.modes.Layered :=
      hv.keeps (P := fun v => v.modes.Layered) (fun _ => layered_next) hlayered
    have hself' := hself.later hv
    have hends' := hends.later hv
    rcases v.mode.rules_of_takesBracket rule hrule htakes with
      hcomment | ⟨hpolicy, hmode⟩ | ⟨hpath, hmode⟩
    · rw [hcomment] at hall
      obtain ⟨hend, hhidden⟩ := hidden_of_lineComment hall
      exact absurd hhidden (hself'.visible v (.refl v) hrest hend)
    · rw [hpolicy] at hall
      rcases Scan.policyName_bracket v.rest with hsame | ⟨hpipe, -⟩
      · have hle := Scan.policyName_le_length v.rest
        exact absurd (hsame.symm.trans hall) (by omega)
      · exact absurd hends' (InEnrichment.not_endsInExpression
          ⟨hlayered', hpipe, List.mem_cons.2 (.inl hmode)⟩)
    · rw [hpath] at hall
      rcases hmode with hdefault | hmode
      · exact ⟨v, hv, hdefault, hall⟩
      · exact absurd hends' (not_endsInExpression_of_path hlayered' hself' hmode hrule hpath hall)

end Tokenizer

end PipeQuery
