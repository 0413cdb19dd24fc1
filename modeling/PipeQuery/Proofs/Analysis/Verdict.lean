-- SUMMARY: What an analysis answers, finds and counts depends on the text, the limits and, for the counts, the preferences; never on earlier runs or the log.
import PipeQuery.Proofs.Stream.Counts
import PipeQuery.Proofs.Stream.Coverage
import PipeQuery.Session

/-! # Verdicts

The analyzer reads a run token by token and stops early at a limit, while it takes
notes for its callers and for the log. What it answers is that of the whole run read at
once, and none of the notes has a say in it. -/

namespace PipeQuery

/-! ## Notes -/

namespace Notes

variable (limits : Limits) (p : LexicalPreferences) (now : Moment)

@[simp] theorem metrics_report (n : Notes) (e : Event) : (n.report e).metrics = n.metrics := rfl

@[simp] theorem diagnostics_report (n : Notes) (e : Event) :
    (n.report e).diagnostics = n.diagnostics := rfl

@[simp] theorem metrics_noteTransition (n : Notes) (s : Tokenizer.Step) :
    (n.noteTransition p now s).metrics = n.metrics := by
  unfold noteTransition
  split <;> rfl

@[simp] theorem diagnostics_noteTransition (n : Notes) (s : Tokenizer.Step) :
    (n.noteTransition p now s).diagnostics = n.diagnostics := by
  unfold noteTransition
  split <;> rfl

/-- Whether unknown input is logged has no say in whether it is kept. -/
theorem noteUnknown_eq (n : Notes) (s : Tokenizer.Step) :
    n.noteUnknown limits p now s =
      if s.token.isUnknown ∧ n.diagnostics.length < limits.maxReportedDiagnostics then
        { n with
          diagnostics := .ofUnknown s.token s.mode :: n.diagnostics
          events := if p.logUnrecognizedInput then unknownEvent p now s :: n.events else n.events }
      else n := by
  simp only [noteUnknown, Bool.and_eq_true, decide_eq_true_eq]
  split
  · cases p.logUnrecognizedInput <;> rfl
  · rfl

@[simp] theorem metrics_noteUnknown (n : Notes) (s : Tokenizer.Step) :
    (n.noteUnknown limits p now s).metrics = n.metrics := by
  rw [noteUnknown_eq]
  split <;> rfl

theorem metrics_note (n : Notes) (s : Tokenizer.Step) :
    (n.note limits p now s).metrics = n.metrics.record p s.mode s.token := by
  simp [note]

theorem diagnostics_note (n : Notes) (s : Tokenizer.Step) :
    (n.note limits p now s).diagnostics =
      if s.token.isUnknown ∧ n.diagnostics.length < limits.maxReportedDiagnostics then
        .ofUnknown s.token s.mode :: n.diagnostics
      else n.diagnostics := by
  simp only [note, noteUnknown_eq, diagnostics_noteTransition]
  split <;> simp

def unknownSteps (steps : List Tokenizer.Step) : List Tokenizer.Step :=
  steps.filter (·.token.isUnknown)

/-- The errors of the unknown tokens among steps of a run. -/
def unknownErrors (steps : List Tokenizer.Step) : List LexicalError :=
  (steps.filter (·.token.isUnknown)).map fun s => .ofUnknown s.token s.mode

theorem metrics_foldl_note (n : Notes) (steps : List Tokenizer.Step) :
    (steps.foldl (note limits p now) n).metrics =
      steps.foldl (fun m s => m.record p s.mode s.token) n.metrics := by
  induction steps generalizing n with
  | nil => rfl
  | cons s steps ih => rw [List.foldl_cons, List.foldl_cons, ih, metrics_note]

variable {limits p now}

/-- What is kept of each step that is diagnosed is kept, over a run, of the first steps that read
unknown text: as many as there is room for. -/
theorem foldl_note_of_kept {α : Type} (kept : Notes → List α) {entries : Tokenizer.Step → List α}
    (h : ∀ n s, kept (n.note limits p now s) =
      if s.token.isUnknown ∧ n.diagnostics.length < limits.maxReportedDiagnostics then
        kept n ++ entries s
      else kept n)
    (n : Notes) (steps : List Tokenizer.Step) :
    kept (steps.foldl (note limits p now) n) =
      kept n ++
        ((unknownSteps steps).take
          (limits.maxReportedDiagnostics - n.diagnostics.length)).flatMap entries := by
  induction steps generalizing n with
  | nil => simp [unknownSteps]
  | cons s steps ih =>
    have hkept := h n s
    have hlisted := diagnostics_note limits p now n s
    rw [List.foldl_cons, ih]
    cases hunknown : s.token.isUnknown with
    | false =>
      have hsteps : unknownSteps (s :: steps) = unknownSteps steps :=
        List.filter_cons_of_neg (by simp [hunknown])
      simp only [hunknown, Bool.false_eq_true, false_and, if_false] at hkept hlisted
      rw [hkept, hlisted, hsteps]
    | true =>
      have hsteps : unknownSteps (s :: steps) = s :: unknownSteps steps :=
        List.filter_cons_of_pos hunknown
      rcases Nat.lt_or_ge n.diagnostics.length limits.maxReportedDiagnostics with hroom | hfull
      · obtain ⟨room, hleft⟩ := Nat.exists_eq_add_of_lt hroom
        have hbefore : limits.maxReportedDiagnostics - n.diagnostics.length = room + 1 := by omega
        have hafter : limits.maxReportedDiagnostics - (n.diagnostics.length + 1) = room := by omega
        simp only [hunknown, hroom, and_self, if_true] at hkept hlisted
        rw [hkept, hlisted, hsteps, List.length_cons, hbefore, hafter, List.take_succ_cons,
          List.flatMap_cons, List.append_assoc]
      · -- A full list leaves no room, before the step and after it.
        have hnone : limits.maxReportedDiagnostics - n.diagnostics.length = 0 := by omega
        simp only [Nat.not_lt.2 hfull, and_false, if_false] at hkept hlisted
        rw [hkept, hlisted, hnone, List.take_zero, List.take_zero]

variable (p now)

theorem diagnostics_foldl_note {n : Notes}
    (h : n.diagnostics.length ≤ limits.maxReportedDiagnostics) (steps : List Tokenizer.Step) :
    (steps.foldl (note limits p now) n).diagnostics.reverse =
      (n.diagnostics.reverse ++ unknownErrors steps).take limits.maxReportedDiagnostics := by
  have hkept : ∀ (n : Notes) (s : Tokenizer.Step),
      (n.note limits p now s).diagnostics.reverse =
        if s.token.isUnknown ∧ n.diagnostics.length < limits.maxReportedDiagnostics then
          n.diagnostics.reverse ++ [.ofUnknown s.token s.mode]
        else n.diagnostics.reverse := by
    intro n s
    rw [diagnostics_note, apply_ite List.reverse, List.reverse_cons]
  have hfull : n.diagnostics.reverse.take limits.maxReportedDiagnostics = n.diagnostics.reverse :=
    List.take_of_length_le (by rwa [List.length_reverse])
  refine (foldl_note_of_kept (·.diagnostics.reverse) hkept n steps).trans ?_
  rw [List.take_append, hfull, List.length_reverse, unknownErrors, ← List.map_take,
    ← List.map_eq_flatMap]
  rfl

@[simp] theorem metrics_noteModes (n : Notes) (modes : ModeStack) :
    (n.noteModes limits now modes).metrics =
      { n.metrics with maxModeDepth := modes.deepest, droppedPushes := modes.dropped } := by
  unfold noteModes
  dsimp only
  split <;> rfl

@[simp] theorem diagnostics_noteModes (n : Notes) (modes : ModeStack) :
    (n.noteModes limits now modes).diagnostics = n.diagnostics := by
  unfold noteModes
  dsimp only
  split <;> rfl

@[simp] theorem metrics_noteEnd (performance : Bool) (timing : Timing) (bytes tokens : Nat)
    (n : Notes) : (n.noteEnd performance timing bytes tokens).metrics = n.metrics := by
  cases performance <;> rfl

@[simp] theorem diagnostics_noteEnd (performance : Bool) (timing : Timing) (bytes tokens : Nat)
    (n : Notes) : (n.noteEnd performance timing bytes tokens).diagnostics = n.diagnostics := by
  cases performance <;> rfl

end Notes

/-! ## Whole Runs -/

section Analyses

variable (limits : Limits) (p : LexicalPreferences) (performance : Bool) (timing : Timing)
  (source : List Char)

/-- The whole run over a text under the depth limit of a build. -/
def wholeRun : List Tokenizer.Step :=
  (Tokenizer.start limits.maxModeDepth source).steps

def finalModes : ModeStack :=
  ((wholeRun limits source).getLast?.map (·.modes)).getD (.withLimit limits.maxModeDepth)

variable {limits source}

theorem Limits.acceptsInput_eq_false_iff {size : Nat} :
    limits.acceptsInput size = false ↔ limits.maxInputSize < size := by
  simp [Limits.acceptsInput]

theorem Limits.acceptsInput_eq_true_iff {size : Nat} :
    limits.acceptsInput size = true ↔ size ≤ limits.maxInputSize := by
  simp [Limits.acceptsInput]

theorem analyzeText_of_tooLarge (h : limits.maxInputSize < Text.size source) :
    analyzeText limits p performance timing .empty source =
      .tooLarge limits timing.now .empty (Text.size source) := by
  simp [analyzeText, Limits.acceptsInput_eq_false_iff.2 h]

/-- If all that is left is within the limit, all of it is noted and kept. -/
theorem readFrom_of_complete {tokens : Array Token} {n : Notes} {t : Tokenizer}
    (hf : t.finished = false) (hfew : tokens.size + t.steps.length ≤ limits.maxTokenCount) :
    readFrom limits p performance timing source tokens n t =
      .complete limits performance timing source ((t.steps.getLast?.map (·.modes)).getD t.modes)
        (t.steps.foldl (Notes.note limits p timing.now) n) (tokens.toList ++ t.tokens) := by
  induction t using Tokenizer.run_induction generalizing tokens n with
  | atEnd t hrest =>
    -- The call at the end of the text finds the mark of the end, which has a place as well.
    have heof := t.isEof_next_iff.2 hrest
    rw [Tokenizer.steps_of_rest_nil hf hrest] at hfew ⊢
    rw [readFrom, if_neg (Nat.not_le.2 hfew), if_pos heof, Tokenizer.tokens_of_rest_nil hf hrest,
      Tokenizer.next_of_rest_nil hrest, Array.toList_push]
    rfl
  | before t hrest ih =>
    have heof : ¬t.next.1.isEof = true := fun h => hrest (t.isEof_next_iff.1 h)
    have hlater : t.next.2.finished = false := by rw [Tokenizer.finished_next hrest, hf]
    -- The token takes one place, and the rest of the run still has as many as it needs.
    rw [Tokenizer.steps_of_rest_ne_nil hf hrest, List.length_cons] at hfew
    have hroom : ¬limits.maxTokenCount ≤ tokens.size := by omega
    have hrest' : (tokens.push t.next.1).size + t.next.2.steps.length ≤ limits.maxTokenCount := by
      rw [Array.size_push]
      omega
    rw [readFrom, if_neg hroom, if_neg heof, ih hlater hrest',
      Tokenizer.steps_of_rest_ne_nil hf hrest, Tokenizer.tokens_of_rest_ne_nil hf hrest,
      List.getLast?_cons, Array.toList_push, List.append_assoc]
    cases t.next.2.steps.getLast? <;> rfl

/-- If there is more, all is noted in front of the step that exceeds the limit. -/
theorem readFrom_of_tooMany {tokens : Array Token} {n : Notes} {t : Tokenizer} {s : Tokenizer.Step}
    (hf : t.finished = false) (hroom : tokens.size ≤ limits.maxTokenCount)
    (hs : t.steps[limits.maxTokenCount - tokens.size]? = some s) :
    readFrom limits p performance timing source tokens n t =
      .tooManyTokens limits timing.now
        ((t.steps.take (limits.maxTokenCount - tokens.size)).foldl
          (Notes.note limits p timing.now) n)
        (limits.maxTokenCount + 1) s.token := by
  induction t using Tokenizer.run_induction generalizing tokens n with
  | atEnd t hrest =>
    rw [Tokenizer.steps_of_rest_nil hf hrest] at hs ⊢
    -- There is one step only, so that it must be the one beyond the limit.
    have hfull : limits.maxTokenCount - tokens.size = 0 :=
      Nat.lt_one_iff.1 (List.getElem?_eq_some_iff.1 hs).1
    have hsize : limits.maxTokenCount = tokens.size := by omega
    rw [hfull, List.getElem?_cons_zero] at hs
    obtain rfl := Option.some.inj hs
    rw [readFrom, if_pos hsize.le, hfull, Tokenizer.next_of_rest_nil hrest, hsize]
    rfl
  | before t hrest ih =>
    have heof : ¬t.next.1.isEof = true := fun h => hrest (t.isEof_next_iff.1 h)
    have hlater : t.next.2.finished = false := by rw [Tokenizer.finished_next hrest, hf]
    rw [Tokenizer.steps_of_rest_ne_nil hf hrest] at hs ⊢
    rcases Nat.eq_or_lt_of_le hroom with hsize | hlt
    · rw [← hsize, Nat.sub_self, List.getElem?_cons_zero] at hs
      obtain rfl := Option.some.inj hs
      rw [readFrom, if_pos hsize.ge, ← hsize, Nat.sub_self]
      rfl
    · obtain ⟨room, hleft⟩ := Nat.exists_eq_add_of_lt hlt
      have hbefore : limits.maxTokenCount - tokens.size = room + 1 := by omega
      have hafter : limits.maxTokenCount - (tokens.push t.next.1).size = room := by
        rw [Array.size_push]
        omega
      have hnext : (tokens.push t.next.1).size ≤ limits.maxTokenCount := by
        rw [Array.size_push]
        exact hlt
      rw [hbefore, List.getElem?_cons_succ, ← hafter] at hs
      rw [readFrom, if_neg (Nat.not_le.2 hlt), if_neg heof, ih hlater hnext hs, hbefore, hafter]
      rfl

/-- Beyond the token limit, all is noted in front of the token that exceeds it. -/
theorem analyzeText_of_tooMany (h : Text.size source ≤ limits.maxInputSize)
    (hmany : limits.maxTokenCount < (wholeRun limits source).length) :
    analyzeText limits p performance timing .empty source =
      .tooManyTokens limits timing.now
        (((wholeRun limits source).take limits.maxTokenCount).foldl
          (Notes.note limits p timing.now) .empty)
        (limits.maxTokenCount + 1) (wholeRun limits source)[limits.maxTokenCount].token := by
  rw [analyzeText, if_pos (Limits.acceptsInput_eq_true_iff.2 h)]
  exact readFrom_of_tooMany p performance timing rfl (Nat.zero_le _)
    (List.getElem?_eq_getElem hmany)

/-- Within the token limit, nothing of the run is cut off. -/
theorem analyzeText_of_complete (h : Text.size source ≤ limits.maxInputSize)
    (hfew : (wholeRun limits source).length ≤ limits.maxTokenCount) :
    analyzeText limits p performance timing .empty source =
      .complete limits performance timing source (finalModes limits source)
        ((wholeRun limits source).foldl (Notes.note limits p timing.now) .empty)
        (Tokenizer.start limits.maxModeDepth source).tokens := by
  have hall :
      (#[] : Array Token).size + (wholeRun limits source).length ≤ limits.maxTokenCount := by
    rwa [Array.size_empty, Nat.zero_add]
  rw [analyzeText, if_pos (Limits.acceptsInput_eq_true_iff.2 h)]
  exact readFrom_of_complete p performance timing rfl hall

end Analyses

namespace Analyzer

/-! ## Answers -/

/-- The answer for a text: its size decides first, then the number of its tokens with the
end of input. -/
def verdict (limits : Limits) (source : List Char) : Except LexicalError TokenStream :=
  let tokens := (Tokenizer.start limits.maxModeDepth source).tokens
  if limits.maxInputSize < Text.size source then
    .error (.inputTooLarge (Text.size source) limits.maxInputSize)
  else if limits.maxTokenCount < tokens.length then
    .error (.tooManyTokens (limits.maxTokenCount + 1) limits.maxTokenCount)
  else .ok (.ofTokens tokens (some (.ofText source)))

/-- The steps of a run over a text that are noted: none of a text that is too large, and
no more than the limit. -/
def notedSteps (limits : Limits) (source : List Char) : List Tokenizer.Step :=
  if limits.maxInputSize < Text.size source then []
  else (wholeRun limits source).take limits.maxTokenCount

/-- The first unknown tokens of a text. -/
def findings (limits : Limits) (source : List Char) : List LexicalError :=
  (Notes.unknownErrors (notedSteps limits source)).take limits.maxReportedDiagnostics

/-- The counts of a text. Those of the mode stack are taken at the end of the run. -/
def tally (limits : Limits) (p : LexicalPreferences) (source : List Char) : Metrics :=
  let noted := (notedSteps limits source).foldl (fun m s => m.record p s.mode s.token) .zero
  match verdict limits source with
  | .ok _ =>
    { noted with
      maxModeDepth := (finalModes limits source).deepest
      droppedPushes := (finalModes limits source).dropped }
  | .error _ => noted

variable (limits : Limits) (p : LexicalPreferences) (performance : Bool) (timing : Timing)
  (source : List Char)

/-- What an analysis answers, finds and counts is that of the whole run, whatever is
logged on the way. -/
theorem analyzeText_spec :
    let outcome := analyzeText limits p performance timing .empty source
    outcome.result = verdict limits source ∧
      outcome.notes.diagnostics.reverse = findings limits source ∧
      outcome.notes.metrics = tally limits p source := by
  have hlength : (Tokenizer.start limits.maxModeDepth source).tokens.length =
      (wholeRun limits source).length := List.length_map _
  have hfound : ∀ steps : List Tokenizer.Step,
      (steps.foldl (Notes.note limits p timing.now) .empty).diagnostics.reverse =
        (Notes.unknownErrors steps).take limits.maxReportedDiagnostics :=
    Notes.diagnostics_foldl_note p timing.now (Nat.zero_le _)
  have hcounted : ∀ steps : List Tokenizer.Step,
      (steps.foldl (Notes.note limits p timing.now) .empty).metrics =
        steps.foldl (fun m s => m.record p s.mode s.token) .zero :=
    Notes.metrics_foldl_note limits p timing.now .empty
  -- The ways in which an analysis ends, in the order in which they are found.
  rcases Nat.lt_or_ge limits.maxInputSize (Text.size source) with hlarge | hsize
  · rw [analyzeText_of_tooLarge p performance timing hlarge]
    simp [Outcome.tooLarge, findings, tally, verdict, notedSteps, hlarge, Notes.empty,
      Notes.unknownErrors]
  · have hnot := Nat.not_lt.2 hsize
    rcases Nat.lt_or_ge limits.maxTokenCount (wholeRun limits source).length with hmany | hfew
    · rw [analyzeText_of_tooMany p performance timing hsize hmany]
      simp [Outcome.tooManyTokens, findings, tally, verdict, notedSteps, hnot, hlength, hmany,
        hfound, hcounted]
    · rw [analyzeText_of_complete p performance timing hsize hfew]
      simp [Outcome.complete, findings, tally, verdict, notedSteps, hnot, hlength,
        Nat.not_lt.2 hfew, List.take_of_length_le hfew, hfound, hcounted]

/-- A text is accepted exactly if it is within both limits. -/
theorem verdict_eq_ok_iff {limits : Limits} {source : List Char} {stream : TokenStream} :
    verdict limits source = .ok stream ↔
      Text.size source ≤ limits.maxInputSize ∧
        (wholeRun limits source).length ≤ limits.maxTokenCount ∧
        .ofTokens (Tokenizer.start limits.maxModeDepth source).tokens (some (.ofText source)) =
          stream := by
  have hlength : (Tokenizer.start limits.maxModeDepth source).tokens.length =
      (wholeRun limits source).length := List.length_map _
  rw [← hlength, ← Nat.not_lt, ← Nat.not_lt]
  unfold verdict
  dsimp only
  split
  case isTrue hlarge => exact iff_of_false nofun fun h => h.1 hlarge
  case isFalse hsize =>
    split
    case isTrue hmany => exact iff_of_false nofun fun h => h.2.1 hmany
    case isFalse hfew =>
      exact ⟨fun h => ⟨hsize, hfew, Except.ok.inj h⟩, fun h => congrArg Except.ok h.2.2⟩

/-- An accepted text has its stream, which covers it and keeps within the token limit. -/
theorem of_verdict_eq_ok {limits : Limits} {source : List Char} {stream : TokenStream}
    (h : verdict limits source = .ok stream) :
    stream.tokens = (Tokenizer.start limits.maxModeDepth source).tokens ∧
      Coverage.check stream.tokens source = .ok () ∧
      (TokenCounts.ofTokens stream.tokens).isWithin limits.maxTokenCount = true := by
  have htiling : Tiling .start source (Tokenizer.start limits.maxModeDepth source).tokens :=
    Tokenizer.tiling_tokens (Tokenizer.start limits.maxModeDepth source) rfl
  have hpos := List.length_pos_iff.2 htiling.ne_nil
  have hlength : (Tokenizer.start limits.maxModeDepth source).tokens.length =
      (wholeRun limits source).length := List.length_map _
  obtain ⟨-, hfew, rfl⟩ := verdict_eq_ok_iff.1 h
  refine ⟨rfl, Coverage.check_of_tiling htiling, ?_⟩
  -- The end of input counts towards the limit of the analyzer and not towards the total.
  rw [TokenStream.tokens_ofTokens, TokenCounts.isWithin, TokenCounts.total_ofTokens,
    List.countP_eq_length_filter, htiling.filter_not_isEof, List.length_dropLast,
    decide_eq_true_eq]
  omega

/-- Every step over an accepted text is noted. -/
theorem notedSteps_of_verdict {limits : Limits} {source : List Char} {stream : TokenStream}
    (h : verdict limits source = .ok stream) :
    notedSteps limits source = wholeRun limits source := by
  obtain ⟨hsize, hfew, -⟩ := verdict_eq_ok_iff.1 h
  rw [notedSteps, if_neg (Nat.not_lt.2 hsize), List.take_of_length_le hfew]

/-! ## Histories -/

/-- A request to an analyzer that is kept between its runs. -/
inductive Request where
  | analyze (performance : Bool) (timing : Timing) (source : List Char)
  | setPreferences (p : LexicalPreferences)
  /-- The log is another one, or others have used it in between. -/
  | attach (service : Service)

/-- The analyzer after a request, whatever the answer to it was. -/
def Request.perform (limits : Limits) (a : Analyzer) : Request → Analyzer
  | .analyze performance timing source => (a.analyze limits performance timing source).analyzer
  | .setPreferences p => a.setPreferences p
  | .attach service => { a with service }

/-- The preferences that a request chooses. -/
def Request.chosen? : Request → Option LexicalPreferences
  | .setPreferences p => some p
  | _ => none

/-- The analyzer after requests, one after another. -/
def after (limits : Limits) (requests : List Request) (a : Analyzer) : Analyzer :=
  requests.foldl (Request.perform limits) a

/-- Only choosing preferences changes them. -/
theorem preferences_after (limits : Limits) (requests : List Request) (a : Analyzer) :
    (a.after limits requests).preferences =
      (requests.filterMap Request.chosen?).getLast?.getD a.preferences := by
  induction requests generalizing a with
  | nil => rfl
  | cons request requests ih =>
    have hrest : (a.after limits (request :: requests)) =
        (request.perform limits a).after limits requests := rfl
    rw [hrest, ih]
    cases request with
    | analyze => rfl
    | setPreferences p =>
      simp [Request.chosen?, List.getLast?_cons]
      rfl
    | attach => rfl

/-- After any requests, and with any log, an analyzer answers by the verdict on the text
alone: its size decides, and then the number of its tokens. An accepted text has its
stream, which covers it within the token limit. What is found depends on the text alone
too, and what is counted on the text and the preferences that were chosen last. -/
theorem analyze_after_requests (limits : Limits) (p : LexicalPreferences) (service : Service)
    (requests : List Request) (performance : Bool) (timing : Timing) (source : List Char) :
    let analysis :=
      ((fresh p service).after limits requests).analyze limits performance timing source
    let current := (requests.filterMap Request.chosen?).getLast?.getD p
    analysis.result = verdict limits source ∧
      (limits.maxInputSize < Text.size source ↔
        limits.acceptsInput (Text.size source) = false) ∧
      (∀ stream, analysis.result = .ok stream →
        stream.tokens = (Tokenizer.start limits.maxModeDepth source).tokens ∧
        (∀ session now, (Session.validate limits now session stream source).value = .ok ()) ∧
        (TokenCounts.ofTokens stream.tokens).isWithin limits.maxTokenCount = true) ∧
      analysis.analyzer.diagnostics = findings limits source ∧
      analysis.analyzer.metrics = tally limits current source := by
  intro analysis current
  have hcurrent : ((fresh p service).after limits requests).preferences = current :=
    preferences_after limits requests (fresh p service)
  obtain ⟨hresult, hfindings, htally⟩ := analyzeText_spec limits
    ((fresh p service).after limits requests).preferences performance timing source
  refine ⟨hresult, Limits.acceptsInput_eq_false_iff.symm, ?_, hfindings, hcurrent ▸ htally⟩
  intro stream hstream
  obtain ⟨htokens, hcovers, hwithin⟩ := of_verdict_eq_ok (hresult.symm.trans hstream)
  exact ⟨htokens, fun session now => hcovers, hwithin⟩

end Analyzer

end PipeQuery
