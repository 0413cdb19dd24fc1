-- SUMMARY: The metrics of an accepted text agree with the counts of its stream and add up to their total.
import PipeQuery.Proofs.Analysis.Verdict
import PipeQuery.Proofs.Stream.Counts
import PipeQuery.Proofs.Tokenizer.Trivia

/-! # Metrics and Counts

The metrics are kept while a text is read, and look at the channel of each token first. The
counts are taken of the finished stream, and look at kinds only. Both find the same, since the
tokens on the hidden channel are just those whose kinds are whitespace or comments. -/

namespace PipeQuery

/-! ## Counters -/

/-- What the metrics count. -/
inductive Counter where
  | total
  | significant
  | hidden
  | unknown
  /-- The tokens of all modes together. -/
  | modes
  | ofClass (c : TokenClass)
  deriving DecidableEq, Repr

/-- Whether a token counts towards the total. -/
def LexicalPreferences.counts (p : LexicalPreferences) (t : Token) : Bool :=
  !t.isEof && (p.includeHiddenInCounts || !t.isHidden)

namespace Counter

/-- The counters that a token adds to if it counts towards the total. -/
def ofCounted (p : LexicalPreferences) (t : Token) : List Counter :=
  .total :: .ofClass t.kind.tokenClass ::
    ((if t.isUnknown then [.unknown] else []) ++
      if p.collectDetailedMetrics then [.modes] else [])

/-- The counters that a token adds to. -/
def ofToken (p : LexicalPreferences) (t : Token) : List Counter :=
  if t.isEof then []
  else if t.isHidden then .hidden :: if p.includeHiddenInCounts then ofCounted p t else []
  else .significant :: ofCounted p t

/-- Whether a token adds to a counter. -/
def counts (p : LexicalPreferences) : Counter → Token → Bool
  | .total, t => p.counts t
  | .significant, t => !t.isEof && !t.isHidden
  | .hidden, t => !t.isEof && t.isHidden
  | .unknown, t => p.counts t && t.isUnknown
  | .modes, t => p.counts t && p.collectDetailedMetrics
  | .ofClass c, t => p.counts t && t.kind.tokenClass == c

/-- No token adds to a counter more than once. -/
theorem count_ofToken (p : LexicalPreferences) (t : Token) (k : Counter) :
    (ofToken p t).count k = if k.counts p t then 1 else 0 := by
  have hcounted : (ofCounted p t).count k = if
      (match k with
      | .total => true
      | .significant | .hidden => false
      | .unknown => t.isUnknown
      | .modes => p.collectDetailedMetrics
      | .ofClass c => t.kind.tokenClass == c) then 1 else 0 := by
    unfold ofCounted
    cases k <;> cases t.isUnknown <;> cases p.collectDetailedMetrics <;>
      simp [List.count_cons, beq_iff_eq]
  unfold ofToken
  cases heof : t.isEof <;> cases hhidden : t.isHidden <;>
    cases hincluded : p.includeHiddenInCounts <;> cases k <;>
    simp [counts, LexicalPreferences.counts, *]

end Counter

namespace Metrics

/-- The value of a counter. Special tokens have none of their own. -/
def read (m : Metrics) : Counter → Nat
  | .total => m.total
  | .significant => m.significant
  | .hidden => m.hidden
  | .unknown => m.unknown
  | .modes => (m.perMode.map (·.2)).sum
  | .ofClass .keyword => m.keyword
  | .ofClass .identifier => m.identifier
  | .ofClass .literal => m.literal
  | .ofClass .operator => m.operator
  | .ofClass .punctuation => m.punctuation
  | .ofClass .parameter => m.parameter
  | .ofClass .comment => m.comment
  | .ofClass .whitespace => m.whitespace
  | .ofClass .special => 0

/-- Adds one to a counter for a token that was read in a mode. -/
def bump (mode : Mode) (m : Metrics) : Counter → Metrics
  | .total => { m with total := m.total + 1 }
  | .significant => { m with significant := m.significant + 1 }
  | .hidden => { m with hidden := m.hidden + 1 }
  | .unknown => { m with unknown := m.unknown + 1 }
  | .modes => { m with perMode := countMode mode m.perMode }
  | .ofClass c => m.countClass c

theorem sum_countMode (mode : Mode) (counts : List (Mode × Nat)) :
    ((countMode mode counts).map (·.2)).sum = (counts.map (·.2)).sum + 1 := by
  induction counts with
  | nil => rfl
  | cons entry counts ih =>
    obtain ⟨m, n⟩ := entry
    unfold countMode
    split
    · simp only [List.map_cons, List.sum_cons]
      omega
    · simp only [List.map_cons, List.sum_cons, ih]
      omega

/-- Adding to one counter changes no other. -/
theorem read_bump (mode : Mode) (m : Metrics) (added : Counter) {k : Counter}
    (hk : k ≠ .ofClass .special) :
    (m.bump mode added).read k = m.read k + if added = k then 1 else 0 := by
  cases added with
  | modes =>
    cases k with
    | modes => exact sum_countMode mode m.perMode
    | ofClass c => cases c <;> rfl
    | _ => rfl
  | ofClass d =>
    cases k with
    | ofClass c => cases c <;> first | exact absurd rfl hk | (cases d <;> rfl)
    | _ => cases d <;> rfl
  | _ =>
    cases k with
    | ofClass c => cases c <;> rfl
    | _ => rfl

/-- To record a token is to add to its counters. -/
theorem record_eq (p : LexicalPreferences) (m : Metrics) (mode : Mode) (t : Token) :
    m.record p mode t = (Counter.ofToken p t).foldl (bump mode) m := by
  have hcounted : ∀ m : Metrics,
      m.countToken p mode t = (Counter.ofCounted p t).foldl (bump mode) m := by
    intro m
    unfold countToken Counter.ofCounted
    cases t.isUnknown <;> cases p.collectDetailedMetrics <;> rfl
  unfold record Counter.ofToken
  cases t.isEof
  · cases t.isHidden
    · exact hcounted _
    · cases p.includeHiddenInCounts
      · rfl
      · exact hcounted _
  · rfl

theorem read_foldl_bump (mode : Mode) (added : List Counter) (m : Metrics) {k : Counter}
    (hk : k ≠ .ofClass .special) :
    (added.foldl (bump mode) m).read k = m.read k + added.count k := by
  induction added generalizing m with
  | nil => rfl
  | cons first added ih =>
    rw [List.foldl_cons, ih, read_bump mode m first hk, List.count_cons, Nat.add_assoc,
      Nat.add_comm (List.count k added)]
    simp only [beq_iff_eq]

/-- A counter of a run is how often its tokens add to it. -/
theorem read_foldl_record (p : LexicalPreferences) (steps : List Tokenizer.Step) (m : Metrics)
    {k : Counter} (hk : k ≠ .ofClass .special) :
    (steps.foldl (fun m s => m.record p s.mode s.token) m).read k =
      m.read k + (steps.map (·.token)).countP (k.counts p) := by
  induction steps generalizing m with
  | nil => rfl
  | cons s steps ih =>
    rw [List.foldl_cons, ih, record_eq, read_foldl_bump _ _ _ hk, Counter.count_ofToken,
      List.map_cons, List.countP_cons, Nat.add_assoc]
    congr 1
    exact Nat.add_comm _ _

end Metrics

/-! ## Classified Tokens -/

section Classified

variable {tokens : List Token} {p : LexicalPreferences}

/-- Whether a token counts is seen from its kind. -/
theorem Classified.counts_iff (h : Classified tokens) {t : Token} (ht : t ∈ tokens) :
    p.counts t = true ↔ t.kind ≠ .eof ∧
      (p.includeHiddenInCounts = true ∨
        ¬(t.kind.tokenClass = .whitespace ∨ t.kind.tokenClass = .comment)) := by
  rw [LexicalPreferences.counts, ← h t ht, t.kind.isHiddenByDefault_eq, Token.isEof]
  simp

/-- The tokens of a visible class all count, and those of a hidden class if they are asked for. -/
theorem Classified.countP_ofClass (h : Classified tokens) {c : TokenClass} (hc : c ≠ .special) :
    tokens.countP (Counter.counts p (.ofClass c)) =
      if p.includeHiddenInCounts = true ∨ ¬(c = .whitespace ∨ c = .comment) then
        TokenCounts.inClass tokens c
      else 0 := by
  -- Within one class all tokens are counted, or none.
  have hcounts : ∀ t ∈ tokens, t.kind.tokenClass = c →
      (p.counts t = true ↔
        p.includeHiddenInCounts = true ∨ ¬(c = .whitespace ∨ c = .comment)) := by
    intro t ht hclass
    have hne : t.kind ≠ .eof := by
      intro heof
      rw [heof] at hclass
      exact hc hclass.symm
    rw [h.counts_iff ht, hclass]
    exact and_iff_right hne
  split
  case isTrue hall =>
    refine List.countP_congr fun t ht => ?_
    rw [Counter.counts, Bool.and_eq_true, beq_iff_eq]
    exact and_iff_right_of_imp fun hclass => (hcounts t ht hclass).2 hall
  case isFalse hnone =>
    refine List.countP_eq_zero.2 fun t ht => ?_
    rw [Counter.counts, Bool.and_eq_true, beq_iff_eq]
    rintro ⟨hcount, hclass⟩
    exact hnone ((hcounts t ht hclass).1 hcount)

/-- Special tokens count unless they are the end of input. -/
theorem Classified.counts_of_special (h : Classified tokens) {t : Token} (ht : t ∈ tokens)
    (hkind : t.kind = .unknown ∨ t.kind = .unknownCommand) : p.counts t = true := by
  rw [h.counts_iff ht]
  rcases hkind with hkind | hkind <;> simp [hkind, TokenKind.tokenClass]

theorem Classified.countP_unknown (h : Classified tokens) :
    tokens.countP (Counter.counts p .unknown) = tokens.countP Token.isUnknown := by
  refine List.countP_congr fun t ht => ?_
  rw [Counter.counts, Bool.and_eq_true]
  refine and_iff_right_of_imp fun hunknown => h.counts_of_special ht (.inl ?_)
  simpa [Token.isUnknown] using hunknown

/-- The counted special tokens are unknown text and unknown commands. -/
theorem Classified.countP_special (h : Classified tokens) :
    tokens.countP (Counter.counts p (.ofClass .special)) =
      tokens.countP Token.isUnknown + tokens.countP (·.kind == .unknownCommand) := by
  rw [List.countP_eq_countP_filter_add _ _ Token.isUnknown, List.countP_filter, List.countP_filter]
  congr 1
  · refine List.countP_congr fun t ht => ?_
    rw [Counter.counts, Bool.and_eq_true, Bool.and_eq_true, beq_iff_eq]
    refine and_iff_right_of_imp fun hunknown => ?_
    have hkind : t.kind = .unknown := by simpa [Token.isUnknown] using hunknown
    exact ⟨h.counts_of_special ht (.inl hkind), by rw [hkind]; rfl⟩
  · refine List.countP_congr fun t ht => ?_
    rw [Counter.counts, Bool.and_eq_true, Bool.and_eq_true, beq_iff_eq, beq_iff_eq,
      TokenKind.tokenClass_special_iff]
    constructor
    · rintro ⟨⟨hcount, heof | hunknown | hcommand⟩, hother⟩
      · exact absurd heof ((h.counts_iff ht).1 hcount).1
      · simp [Token.isUnknown, hunknown] at hother
      · exact hcommand
    · intro hcommand
      refine ⟨⟨h.counts_of_special ht (.inr hcommand), .inr (.inr hcommand)⟩, ?_⟩
      simp [Token.isUnknown, hcommand]

/-- The hidden tokens are whitespace and comments. -/
theorem Classified.countP_hidden (h : Classified tokens) :
    tokens.countP (Counter.counts p .hidden) =
      TokenCounts.inClass tokens .whitespace + TokenCounts.inClass tokens .comment := by
  rw [← TokenCounts.countP_isHiddenByDefault]
  refine List.countP_congr fun t ht => ?_
  rw [Counter.counts, ← h t ht, Bool.and_eq_true]
  refine and_iff_right_of_imp fun hhidden => ?_
  cases hkind : t.kind with
  | eof => exact absurd (hkind ▸ hhidden) (by decide)
  | _ => simp [Token.isEof, hkind]

theorem countP_not_isEof :
    tokens.countP (!·.isEof) =
      tokens.countP (Counter.counts p .significant) + tokens.countP (Counter.counts p .hidden) := by
  rw [List.countP_eq_countP_filter_add _ _ fun t => !t.isHidden, List.countP_filter,
    List.countP_filter]
  simp only [Bool.not_not]
  rfl

/-- The end of input is the one significant token of a stream that is not counted. -/
theorem Classified.size_eq {stream : TokenStream} (h : Classified stream.tokens)
    (heof : stream.tokens.countP Token.isEof = 1) :
    stream.size = stream.tokens.countP (Counter.counts p .significant) + 1 := by
  rw [stream.size_eq, ← List.countP_eq_length_filter,
    List.countP_eq_countP_filter_add _ _ fun t => !t.isEof, List.countP_filter, List.countP_filter,
    ← heof]
  congr 1
  · refine List.countP_congr fun t _ => ?_
    rw [Counter.counts, t.isSignificant_eq, Bool.and_comm]
  · refine List.countP_congr fun t ht => ?_
    rw [t.isSignificant_eq, ← h t ht, Bool.not_not, Bool.and_eq_true]
    refine and_iff_right_of_imp fun hlast => ?_
    have hkind : t.kind = .eof := by simpa [Token.isEof] using hlast
    rw [hkind]
    rfl

end Classified

namespace Analyzer

/-! ## Accepted Texts -/

theorem result_analyze (a : Analyzer) (limits : Limits) (performance : Bool) (timing : Timing)
    (source : List Char) :
    (a.analyze limits performance timing source).result = verdict limits source :=
  (analyzeText_spec limits a.preferences performance timing source).1

theorem metrics_analyze (a : Analyzer) (limits : Limits) (performance : Bool) (timing : Timing)
    (source : List Char) :
    (a.analyze limits performance timing source).analyzer.metrics =
      tally limits a.preferences source :=
  (analyzeText_spec limits a.preferences performance timing source).2.2

/-- Each counter of an accepted text is how many tokens of the stream add to it. -/
theorem read_tally (p : LexicalPreferences) {limits : Limits} {source : List Char}
    {stream : TokenStream} (h : verdict limits source = .ok stream) {k : Counter}
    (hk : k ≠ .ofClass .special) :
    (tally limits p source).read k = stream.tokens.countP (k.counts p) := by
  have htokens : (wholeRun limits source).map (·.token) = stream.tokens :=
    (of_verdict_eq_ok h).1.symm
  have hread : (tally limits p source).read k =
      ((wholeRun limits source).foldl (fun (m : Metrics) s => m.record p s.mode s.token)
        .zero).read k := by
    rw [tally, h, notedSteps_of_verdict h]
    cases k with
    | ofClass c => cases c <;> rfl
    | _ => rfl
  have hzero : Metrics.zero.read k = 0 := by
    cases k with
    | ofClass c => cases c <;> rfl
    | _ => rfl
  rw [hread, Metrics.read_foldl_record p _ _ hk, htokens, hzero, Nat.zero_add]

end Analyzer

/-! ## Agreement -/

namespace Metrics

/-- The metrics tell of a stream what its counts tell, and they add up. -/
structure Agrees (p : LexicalPreferences) (m : Metrics) (stream : TokenStream) : Prop where
  significant : m.significant = stream.counts.significant
  /-- The end of input is significant, but it is not counted. -/
  size : stream.size = m.significant + 1
  hidden : m.hidden = stream.counts.whitespace + stream.counts.comments
  unknown : m.unknown = stream.counts.unknown
  keyword : m.keyword = stream.counts.keywords
  identifier : m.identifier = stream.counts.identifiers
  literal : m.literal = stream.counts.literals
  operator : m.operator = stream.counts.operators
  punctuation : m.punctuation = stream.counts.punctuation
  parameter : m.parameter = stream.counts.parameters
  included : p.includeHiddenInCounts = true →
    m.comment = stream.counts.comments ∧ m.whitespace = stream.counts.whitespace ∧
      m.total = stream.counts.total
  excluded : p.includeHiddenInCounts = false →
    m.comment = 0 ∧ m.whitespace = 0 ∧ m.total = m.significant
  total : m.total =
    m.keyword + m.identifier + m.literal + m.operator + m.punctuation + m.parameter + m.comment +
      m.whitespace + m.unknown + stream.tokens.countP (·.kind == .unknownCommand)
  perMode : p.collectDetailedMetrics = true → (m.perMode.map (·.2)).sum = m.total
  /-- What is taken from the total of the counts is in it. -/
  hidden_le : stream.counts.whitespace + stream.counts.comments ≤ stream.counts.total

/-- The counters say what the tokens add to them, and the tokens are classified. -/
structure Tallies (p : LexicalPreferences) (m : Metrics) (tokens : List Token) : Prop where
  classified : Classified tokens
  read_eq : ∀ k ≠ .ofClass .special, m.read k = tokens.countP (k.counts p)

namespace Tallies

variable {p : LexicalPreferences} {m : Metrics} {tokens : List Token}

theorem total_eq (h : m.Tallies p tokens) : m.total = tokens.countP p.counts :=
  h.read_eq .total nofun

theorem significant_eq (h : m.Tallies p tokens) :
    m.significant = tokens.countP (Counter.counts p .significant) :=
  h.read_eq .significant nofun

theorem unknown_eq (h : m.Tallies p tokens) : m.unknown = tokens.countP Token.isUnknown :=
  (h.read_eq .unknown nofun).trans h.classified.countP_unknown

theorem hidden_eq (h : m.Tallies p tokens) :
    m.hidden = TokenCounts.inClass tokens .whitespace + TokenCounts.inClass tokens .comment :=
  (h.read_eq .hidden nofun).trans h.classified.countP_hidden

/-- The counter of a class that is not hidden, or of any class if all are included. -/
theorem ofClass_eq (h : m.Tallies p tokens) (c : TokenClass) (hc : c ≠ .special)
    (hcounts : p.includeHiddenInCounts = true ∨ ¬(c = .whitespace ∨ c = .comment)) :
    m.read (.ofClass c) = TokenCounts.inClass tokens c := by
  have hne : Counter.ofClass c ≠ .ofClass .special := fun heq => hc (Counter.ofClass.inj heq)
  rw [h.read_eq _ hne, h.classified.countP_ofClass hc, if_pos hcounts]

theorem ofClass_eq_zero (h : m.Tallies p tokens) (c : TokenClass)
    (hc : c = .whitespace ∨ c = .comment) (hexcluded : p.includeHiddenInCounts = false) :
    m.read (.ofClass c) = 0 := by
  have hspecial : c ≠ .special := by rcases hc with rfl | rfl <;> decide
  have hne : Counter.ofClass c ≠ .ofClass .special := fun heq =>
    hspecial (Counter.ofClass.inj heq)
  rw [h.read_eq _ hne, h.classified.countP_ofClass hspecial, if_neg]
  simp [hexcluded, hc]

theorem total_of_included (h : m.Tallies p tokens) (hincluded : p.includeHiddenInCounts = true) :
    m.total = tokens.countP (!·.isEof) := by
  have hall : p.counts = fun t => !t.isEof := by
    funext t
    simp [LexicalPreferences.counts, hincluded]
  rw [h.total_eq, hall]

theorem total_of_excluded (h : m.Tallies p tokens) (hexcluded : p.includeHiddenInCounts = false) :
    m.total = m.significant := by
  have hvisible : p.counts = Counter.counts p .significant := by
    funext t
    simp [LexicalPreferences.counts, Counter.counts, hexcluded]
  rw [h.total_eq, h.significant_eq, hvisible]

theorem modes_eq (h : m.Tallies p tokens) (hdetailed : p.collectDetailedMetrics = true) :
    (m.perMode.map (·.2)).sum = m.total := by
  have hmodes : Counter.counts p .modes = p.counts := by
    funext t
    simp [Counter.counts, hdetailed]
  rw [h.total_eq, ← hmodes]
  exact h.read_eq .modes nofun

/-- Every counted token is in a class with a counter, or it is special. -/
theorem total_eq_sum (h : m.Tallies p tokens) :
    m.total =
      m.keyword + m.identifier + m.literal + m.operator + m.punctuation + m.parameter + m.comment +
        m.whitespace + m.unknown + tokens.countP (·.kind == .unknownCommand) := by
  have hsum : m.total =
      (TokenClass.all.map fun c => tokens.countP (Counter.counts p (.ofClass c))).sum :=
    h.total_eq.trans (TokenCounts.countP_eq_sum_classes tokens p.counts)
  have hof : ∀ c, c ≠ .special →
      tokens.countP (Counter.counts p (.ofClass c)) = m.read (.ofClass c) := by
    intro c hc
    exact (h.read_eq _ fun heq => hc (Counter.ofClass.inj heq)).symm
  simp (disch := decide) only [TokenClass.all, List.map_cons, List.map_nil, List.sum_cons,
    List.sum_nil, hof, h.classified.countP_special, ← h.unknown_eq, read] at hsum
  omega

/-- Counters that say what the tokens of a stream add to them agree with its counts. -/
theorem agrees {stream : TokenStream} (h : m.Tallies p stream.tokens)
    (heof : stream.tokens.countP Token.isEof = 1) : m.Agrees p stream := by
  have hcounts : stream.counts = _ := TokenCounts.ofTokens_eq stream.tokens
  have hhidden : m.hidden = stream.counts.whitespace + stream.counts.comments :=
    hcounts ▸ h.hidden_eq
  -- Nothing but the end of input is left out of the total.
  have htotal : stream.counts.total = m.significant + m.hidden := by
    have hread : m.hidden = stream.tokens.countP (Counter.counts p .hidden) :=
      h.read_eq .hidden nofun
    rw [TokenStream.counts, TokenCounts.total_ofTokens, h.significant_eq, hread]
    exact countP_not_isEof
  exact {
    significant := by
      rw [TokenCounts.significant, htotal, hhidden]
      omega
    size := by rw [h.significant_eq, h.classified.size_eq heof]
    hidden := hhidden
    unknown := hcounts ▸ h.unknown_eq
    keyword := hcounts ▸ h.ofClass_eq .keyword nofun (.inr (by decide))
    identifier := hcounts ▸ h.ofClass_eq .identifier nofun (.inr (by decide))
    literal := hcounts ▸ h.ofClass_eq .literal nofun (.inr (by decide))
    operator := hcounts ▸ h.ofClass_eq .operator nofun (.inr (by decide))
    punctuation := hcounts ▸ h.ofClass_eq .punctuation nofun (.inr (by decide))
    parameter := hcounts ▸ h.ofClass_eq .parameter nofun (.inr (by decide))
    included := fun hincluded => hcounts ▸
      ⟨h.ofClass_eq .comment nofun (.inl hincluded),
        h.ofClass_eq .whitespace nofun (.inl hincluded), h.total_of_included hincluded⟩
    excluded := fun hexcluded =>
      ⟨h.ofClass_eq_zero .comment (.inr rfl) hexcluded,
        h.ofClass_eq_zero .whitespace (.inl rfl) hexcluded, h.total_of_excluded hexcluded⟩
    total := h.total_eq_sum
    perMode := h.modes_eq
    hidden_le := TokenCounts.hidden_le_total stream.tokens }

end Tallies

end Metrics

namespace Analyzer

/-- The metrics of an accepted text are those of its tokens. -/
theorem tallies_analyze {limits : Limits} {performance : Bool} {timing : Timing} {a : Analyzer}
    {source : List Char} {stream : TokenStream}
    (h : (a.analyze limits performance timing source).result = .ok stream) :
    (a.analyze limits performance timing source).analyzer.metrics.Tallies a.preferences
      stream.tokens := by
  have hverdict : verdict limits source = .ok stream :=
    (a.result_analyze limits performance timing source).symm.trans h
  refine ⟨?_, fun k hk => ?_⟩
  · rw [(of_verdict_eq_ok hverdict).1]
    exact Tokenizer.classified_tokens _ rfl
  · rw [a.metrics_analyze, read_tally a.preferences hverdict hk]

/-- The metrics of an accepted text agree with the counts of its stream, whatever the
preferences are. -/
theorem metrics_agree {limits : Limits} {performance : Bool} {timing : Timing} {a : Analyzer}
    {source : List Char} {stream : TokenStream}
    (h : (a.analyze limits performance timing source).result = .ok stream) :
    (a.analyze limits performance timing source).analyzer.metrics.Agrees a.preferences stream := by
  have hverdict : verdict limits source = .ok stream :=
    (a.result_analyze limits performance timing source).symm.trans h
  have htiling : Tiling .start source stream.tokens := by
    rw [(of_verdict_eq_ok hverdict).1]
    exact Tokenizer.tiling_tokens (.start limits.maxModeDepth source) rfl
  exact (tallies_analyze h).agrees htiling.countP_isEof

/-- An unknown command, unknown text and a comment, all of them counted. -/
theorem metrics_agree_of_unknown_command :
    let a := fresh
      { collectDetailedMetrics := true
        includeHiddenInCounts := true
        logUnrecognizedInput := false
        includePositionInErrors := false
        traceModeTransitions := false }
      { level := .error, fanout := ⟨.error, []⟩ }
    ∃ stream,
      (a.analyze .production false ⟨.epoch, 0⟩ "foo ^ // c".toList).result = .ok stream ∧
      (a.analyze .production false ⟨.epoch, 0⟩ "foo ^ // c".toList).analyzer.metrics.Agrees
        a.preferences stream := by
  intro a
  have hsize : Text.size "foo ^ // c".toList ≤ Limits.production.maxInputSize := by
    decide +kernel
  have hfew : (wholeRun .production "foo ^ // c".toList).length ≤
      Limits.production.maxTokenCount := by
    decide +kernel
  have hstream := (a.result_analyze .production false ⟨.epoch, 0⟩ "foo ^ // c".toList).trans
    (verdict_eq_ok_iff.2 ⟨hsize, hfew, rfl⟩)
  exact ⟨_, hstream, metrics_agree hstream⟩

end Analyzer

end PipeQuery
