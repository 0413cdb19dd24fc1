-- SUMMARY: The first unknown tokens of an accepted text are diagnosed in order and, if they are to be logged, journals take one warning each; all are counted.
import PipeQuery.Proofs.Analysis.Metrics
import PipeQuery.Proofs.Log.History

/-! # Reports of Unknown Text

Diagnostics, warnings and counters are kept side by side while a text is read. The cap on
diagnostics is a cap on warnings too, but not on the counter, and the preferences have a say in
the warnings only. Journals take the warnings if the filters of the log let warnings through. -/

namespace PipeQuery

/-! ## Warnings -/

/-- Whether an event reports unknown text. -/
def Event.isUnrecognized (e : Event) : Bool := e.code.name == "E020"

namespace Notes

def unrecognized (n : Notes) : List Event := (n.events.filter Event.isUnrecognized).reverse

@[simp] theorem unrecognized_report (n : Notes) (e : Event) :
    (n.report e).unrecognized =
      if e.isUnrecognized then n.unrecognized ++ [e] else n.unrecognized := by
  unfold unrecognized report
  cases h : e.isUnrecognized <;> simp [h]

section Steps

variable (limits : Limits) (p : LexicalPreferences) (now : Moment)

@[simp] theorem isUnrecognized_transitionEvent (s : Tokenizer.Step) :
    (transitionEvent now s).isUnrecognized = false := rfl

@[simp] theorem unrecognized_noteTransition (n : Notes) (s : Tokenizer.Step) :
    (n.noteTransition p now s).unrecognized = n.unrecognized := by
  unfold noteTransition
  split <;> simp

theorem unrecognized_noteUnknown (n : Notes) (s : Tokenizer.Step) :
    (n.noteUnknown limits p now s).unrecognized =
      if s.token.isUnknown ∧ n.diagnostics.length < limits.maxReportedDiagnostics then
        n.unrecognized ++ if p.logUnrecognizedInput then [unknownEvent p now s] else []
      else n.unrecognized := by
  rw [noteUnknown_eq]
  split
  · cases p.logUnrecognizedInput with
    | false => simp [unrecognized]
    | true => exact unrecognized_report n (unknownEvent p now s)
  · rfl

/-- A step is reported exactly if it is diagnosed and unknown text is to be logged. -/
theorem unrecognized_note (n : Notes) (s : Tokenizer.Step) :
    (n.note limits p now s).unrecognized =
      if s.token.isUnknown ∧ n.diagnostics.length < limits.maxReportedDiagnostics then
        n.unrecognized ++ if p.logUnrecognizedInput then [unknownEvent p now s] else []
      else n.unrecognized := by
  have hnote : (n.note limits p now s).unrecognized =
      ((n.noteTransition p now s).noteUnknown limits p now s).unrecognized := rfl
  rw [hnote, unrecognized_noteUnknown, unrecognized_noteTransition, diagnostics_noteTransition]

/-- Over a run, warnings are added as long as there is room for their diagnostics. -/
theorem unrecognized_foldl_note (n : Notes) (steps : List Tokenizer.Step) :
    (steps.foldl (note limits p now) n).unrecognized =
      n.unrecognized ++
        if p.logUnrecognizedInput then
          ((unknownSteps steps).take (limits.maxReportedDiagnostics - n.diagnostics.length)).map
            (unknownEvent p now)
        else [] := by
  rw [foldl_note_of_kept unrecognized (unrecognized_note limits p now)]
  cases p.logUnrecognizedInput with
  | false => simp
  | true => simp [List.map_eq_flatMap]

@[simp] theorem unrecognized_noteModes (n : Notes) (modes : ModeStack) :
    (n.noteModes limits now modes).unrecognized = n.unrecognized := by
  unfold noteModes
  dsimp only
  split <;> rfl

end Steps

@[simp] theorem unrecognized_noteEnd (performance : Bool) (timing : Timing) (bytes tokens : Nat)
    (n : Notes) : (n.noteEnd performance timing bytes tokens).unrecognized = n.unrecognized := by
  cases performance <;> rfl

end Notes

namespace Analyzer

/-! ## Accepted Texts -/

/-- The steps of a text that are diagnosed: the first ones that read unknown text. -/
def listedSteps (limits : Limits) (source : List Char) : List Tokenizer.Step :=
  (Notes.unknownSteps (wholeRun limits source)).take limits.maxReportedDiagnostics

/-- The events that a run over a text hands to the log, in order. -/
def sent (limits : Limits) (performance : Bool) (timing : Timing) (a : Analyzer)
    (source : List Char) : List Event :=
  (analyzeText limits a.preferences performance timing a.reset.notes source).notes.events.reverse

/-- The warnings of unknown text among events, as far as they are promised. -/
def warned (es : List Event) : List (Level × Option Span) :=
  (es.filter (·.code.name == "E020")).map fun e => (e.level, e.span?)

/-- The warning of each step that is diagnosed. -/
def dueWarnings (limits : Limits) (source : List Char) : List (Level × Option Span) :=
  (listedSteps limits source).map fun s => (.warning, some s.token.span)

/-- The name of each mode in diagnostics. -/
def modeNames : List (Mode × String) :=
  [(.default, "DEFAULT_MODE"), (.explain, "EXPLAIN_MODE"), (.expression, "EXPRESSION_MODE"),
    (.from_, "FROM_MODE"), (.project, "PROJECT_MODE"), (.rename, "RENAME_MODE"),
    (.enrich, "ENRICH_MODE"), (.enrichField, "ENRICH_FIELD_MODE"), (.lookup, "LOOKUP_MODE"),
    (.lookupField, "LOOKUP_FIELD_MODE"), (.mvExpand, "MVEXPAND_MODE"), (.show_, "SHOW_MODE"),
    (.meta_, "META_MODE"), (.setting, "SETTING_MODE"), (.metrics, "METRICS_MODE"),
    (.closingMetrics, "CLOSING_METRICS_MODE")]

/-- What a diagnostic says of a step that read unknown text. -/
def Diagnoses (s : Tokenizer.Step) (error : LexicalError) : Prop :=
  ∃ name, (s.mode, name) ∈ modeNames ∧
    error = .unrecognized s.token.text s.token.span.start.line s.token.span.start.column name

theorem diagnoses_ofUnknown (s : Tokenizer.Step) :
    Diagnoses s (.ofUnknown s.token s.mode) := by
  refine ⟨s.mode.name, ?_, rfl⟩
  cases s.mode <;> decide

/-- What an analyzer makes of the unknown tokens of a text. -/
structure ReportsUnknown (limits : Limits) (performance : Bool) (timing : Timing) (a : Analyzer)
    (source : List Char) (stream : TokenStream) : Prop where
  /-- The steps in question are those that gave the unknown tokens of the stream. -/
  tokens_eq : (Notes.unknownSteps (wholeRun limits source)).map (·.token) = stream.unknown
  /-- The mode of a step is the one in which its token was read. -/
  read_in : ∀ s ∈ Notes.unknownSteps (wholeRun limits source),
    ∃ t, Tokenizer.Reachable limits.maxModeDepth source t ∧ t.mode = s.mode ∧ t.next.1 = s.token
  length_listed : (listedSteps limits source).length =
    min stream.unknown.length limits.maxReportedDiagnostics
  diagnosed : List.Forall₂ Diagnoses (listedSteps limits source)
    (a.analyze limits performance timing source).analyzer.diagnostics
  /-- The counter knows no limit. -/
  metrics_eq : (a.analyze limits performance timing source).analyzer.metrics.unknown =
    stream.unknown.length
  warned_sent : warned (a.sent limits performance timing source) =
    if a.preferences.logUnrecognizedInput then dueWarnings limits source else []
  /-- A journal of the log takes these warnings, if the filters in front of it let warnings
  through, and otherwise none. -/
  taken : 0 < limits.logBufferSize → ∀ (index : Nat) (held : Journal),
    held.size ≤ limits.logBufferSize → a.service.fanout.sinks[index]? = some (.journal held) →
    ∃ taken, (a.analyze limits performance timing source).analyzer.service.fanout.sinks[index]? =
        some (.journal ⟨(held.events ++ taken).rtake limits.logBufferSize⟩) ∧
      List.Forall₂ (Event.CutTo limits.maxLogMessageLength)
        (a.service.admitted (a.sent limits performance timing source)) taken ∧
      warned taken =
        if a.preferences.logUnrecognizedInput ∧ a.service.level.admits .warning = true ∧
            a.service.fanout.level.admits .warning = true then dueWarnings limits source
        else []

variable {limits : Limits} {performance : Bool} {timing : Timing} {a : Analyzer}
  {source : List Char} {stream : TokenStream}

/-- The warnings of an accepted text are those of the steps that are diagnosed. -/
theorem filter_sent (h : verdict limits source = .ok stream) :
    (a.sent limits performance timing source).filter Event.isUnrecognized =
      if a.preferences.logUnrecognizedInput then
        (listedSteps limits source).map (Notes.unknownEvent a.preferences timing.now)
      else [] := by
  obtain ⟨hsize, hfew, -⟩ := verdict_eq_ok_iff.1 h
  rw [sent, notes_reset, analyzeText_of_complete a.preferences performance timing hsize hfew,
    Outcome.complete, List.filter_reverse]
  change Notes.unrecognized _ = _
  rw [Notes.unrecognized_noteEnd, Notes.unrecognized_noteModes, Notes.unrecognized_foldl_note]
  rfl

theorem warned_sent_eq (h : verdict limits source = .ok stream) :
    warned (a.sent limits performance timing source) =
      if a.preferences.logUnrecognizedInput then dueWarnings limits source else [] := by
  refine (congrArg _ (filter_sent h)).trans ?_
  cases a.preferences.logUnrecognizedInput with
  | false => rfl
  | true =>
    rw [if_pos rfl, if_pos rfl, List.map_map]
    rfl

/-- Cutting a message leaves alone what is promised of a warning. -/
theorem warned_map_cut (es : List Event) : warned (es.map (Service.cut limits)) = warned es := by
  have hcode : ∀ e, (Service.cut limits e).code = e.code := fun e => by rw [Service.cut_eq]
  have hspan : ∀ e, (Service.cut limits e).span? = e.span? := fun e => by rw [Service.cut_eq]
  simp [warned, List.filter_map, Function.comp_def, hcode, hspan]

/-- The filters of the log let all warnings through or none. -/
theorem warned_admitted (h : verdict limits source = .ok stream) :
    warned (a.service.admitted (a.sent limits performance timing source)) =
      if a.preferences.logUnrecognizedInput ∧ a.service.level.admits .warning = true ∧
          a.service.fanout.level.admits .warning = true then dueWarnings limits source
      else [] := by
  have hadmits : ∀ s, a.service.Admits (Notes.unknownEvent a.preferences timing.now s) ↔
      a.service.level.admits .warning = true ∧ a.service.fanout.level.admits .warning = true :=
    fun s => and_congr decide_eq_true_iff.symm decide_eq_true_iff.symm
  have hlevel : ∀ s, (Notes.unknownEvent a.preferences timing.now s).level = .warning :=
    fun _ => rfl
  have hspan : ∀ s, (Notes.unknownEvent a.preferences timing.now s).span? = some s.token.span :=
    fun _ => rfl
  -- The filters look at levels only, so they may as well come after the choice of events.
  have hfilters : warned (a.service.admitted (a.sent limits performance timing source)) =
      (a.service.admitted ((a.sent limits performance timing source).filter
        Event.isUnrecognized)).map fun e => (e.level, e.span?) :=
    congrArg _ (List.filter_comm ..)
  rw [hfilters, filter_sent h]
  cases a.preferences.logUnrecognizedInput with
  | false => simp [Service.admitted]
  | true =>
    by_cases hall : a.service.level.admits .warning = true ∧
        a.service.fanout.level.admits .warning = true
    · simp [Service.admitted, List.filter_map, Function.comp_def, hadmits, hall, hlevel, hspan,
        dueWarnings]
    · simp [Service.admitted, List.filter_map, Function.comp_def, hadmits, hall]

/-- The first unknown tokens of an accepted text are diagnosed in order, whatever the
preferences, and reported with one warning each if unknown text is to be logged. All of them
are counted. -/
theorem reports_unknown (h : (a.analyze limits performance timing source).result = .ok stream) :
    a.ReportsUnknown limits performance timing source stream := by
  have hverdict : verdict limits source = .ok stream :=
    (a.result_analyze limits performance timing source).symm.trans h
  have htokens : (Notes.unknownSteps (wholeRun limits source)).map (·.token) = stream.unknown := by
    rw [TokenStream.unknown, (of_verdict_eq_ok hverdict).1, Tokenizer.tokens, List.filter_map]
    rfl
  exact {
    tokens_eq := htokens
    read_in := by
      intro s hs
      obtain ⟨t, hlater, rfl⟩ := Tokenizer.exists_later_of_mem_steps
        (t := .start limits.maxModeDepth source) rfl (List.mem_of_mem_filter hs)
      exact ⟨t, Tokenizer.reachable_iff_later.2 hlater, rfl, rfl⟩
    length_listed := by
      rw [listedSteps, List.length_take, ← htokens, List.length_map, Nat.min_comm]
    diagnosed := by
      -- The diagnostics are the errors of the first steps that read unknown text, in order.
      have hfound := (analyzeText_spec limits a.preferences performance timing source).2.1
      have hlisted : findings limits source =
          (listedSteps limits source).map fun s => .ofUnknown s.token s.mode := by
        rw [findings, notedSteps_of_verdict hverdict, listedSteps, List.map_take]
        rfl
      rw [analyze]
      dsimp only
      refine (hfound.trans hlisted) ▸ ?_
      rw [List.forall₂_map_right_iff, List.forall₂_same]
      exact fun s _ => diagnoses_ofUnknown s
    metrics_eq := by
      rw [(tallies_analyze h).unknown_eq, TokenStream.unknown, ← List.countP_eq_length_filter]
    warned_sent := warned_sent_eq hverdict
    taken := by
      intro hroom index held hheld hsink
      refine ⟨_, Service.sink_logAll hroom hheld hsink
        (a.sent limits performance timing source), ?_, ?_⟩
      · rw [List.forall₂_map_right_iff, List.forall₂_same]
        exact fun e _ => Service.cutTo_cut limits e
      -- A message may be cut, but its level and its span are kept.
      · rw [warned_map_cut]
        exact warned_admitted hverdict }

/-- Unknown text in two modes, where only the first of it is diagnosed. The log has one journal,
which holds an event already and has room for two more. -/
theorem reports_unknown_beyond_limit :
    let limits := { Limits.production with maxReportedDiagnostics := 1, logBufferSize := 3 }
    let a := fresh
      { collectDetailedMetrics := false
        includeHiddenInCounts := false
        logUnrecognizedInput := true
        includePositionInErrors := true
        traceModeTransitions := true }
      { level := .info
        fanout := ⟨.warning, [.journal ⟨[.error .epoch .inputTooLarge "before"]⟩]⟩ }
    a.service.fanout.sinks[0]? = some (.journal ⟨[.error .epoch .inputTooLarge "before"]⟩) ∧
    ∃ stream, stream.unknown.length = 2 ∧
      (a.analyze limits false ⟨.epoch, 0⟩ "row ^ | keep %".toList).result = .ok stream ∧
      a.ReportsUnknown limits false ⟨.epoch, 0⟩ "row ^ | keep %".toList stream := by
  intro limits a
  have hsize : Text.size "row ^ | keep %".toList ≤ limits.maxInputSize := by
    decide +kernel
  have hfew : (wholeRun limits "row ^ | keep %".toList).length ≤ limits.maxTokenCount := by
    decide +kernel
  have hstream := (a.result_analyze limits false ⟨.epoch, 0⟩ "row ^ | keep %".toList).trans
    (verdict_eq_ok_iff.2 ⟨hsize, hfew, rfl⟩)
  exact ⟨rfl, _, by decide +kernel, hstream, reports_unknown hstream⟩

end Analyzer

end PipeQuery
