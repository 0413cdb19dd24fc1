-- SUMMARY: The JSON line of an event is a single line that is parsed to a record of the event.
import Mathlib.Data.String.Basic
import PipeQuery.Log.Event
import PipeQuery.Proofs.Format.Value
import PipeQuery.Proofs.Json.Format

/-! # Records of Events

The record of an event has up to nine members. Three of them depend on the event: its context,
its span, and what tools need to handle an error. -/

namespace PipeQuery

/-! ## Additions -/

namespace Event

/-- An event with more values, one after another. -/
def withAll (e : Event) (entries : List (String × String)) : Event :=
  entries.foldl (fun e entry => e.withContext entry.1 entry.2) e

/-- Values change nothing but the context. -/
theorem withAll_eq (e : Event) (entries : List (String × String)) :
    e.withAll entries = { e with context := (e.withAll entries).context } := by
  induction entries generalizing e with
  | nil => rfl
  | cons entry entries ih => exact ih (e.withContext entry.1 entry.2)

theorem ascending_withAll {e : Event} (h : NameMap.Ascending e.context)
    (entries : List (String × String)) :
    NameMap.Ascending (e.withAll entries).context := by
  induction entries generalizing e with
  | nil => exact h
  | cons entry entries ih => exact ih (e := e.withContext entry.1 entry.2) (h.insert _ _)

/-- The last value that was given to a name counts. -/
theorem get?_withAll (e : Event) (entries : List (String × String)) (name : String) :
    (e.withAll entries).context.get? name =
      (entries.reverse.lookup name).or (e.context.get? name) := by
  induction entries generalizing e with
  | nil => rfl
  | cons entry entries ih =>
    have hstep : (e.withAll (entry :: entries)).context.get? name = _ :=
      ih (e.withContext entry.1 entry.2)
    rw [hstep, List.reverse_cons, List.lookup_append, Option.or_assoc, withContext,
      NameMap.get?_insert, List.lookup_singleton]
    by_cases h : name = entry.1
    · simp [h]
    · simp [h]

theorem context_withAll_eq_nil_iff {e : Event} (h : e.context = [])
    (entries : List (String × String)) :
    (e.withAll entries).context = [] ↔ entries = [] := by
  rcases List.eq_nil_or_concat entries with rfl | ⟨before, entry, rfl⟩
  · exact iff_of_true h rfl
  · rw [List.concat_eq_append, withAll, List.foldl_append]
    exact iff_of_false (NameMap.insert_ne_nil _ _ _) (List.append_ne_nil_of_right_ne_nil _ nofun)

/-! ## Members -/

section Members

variable {F : ValueFormat}

/-- A member that may be missing. -/
def optional (name : String) : Option F.Value → List (String × F.Value)
  | some value => [(name, value)]
  | none => []

theorem names_optional_sublist (name : String) (value? : Option F.Value) :
    ((optional name value?).map Prod.fst).Sublist [name] := by
  cases value? with
  | none => exact List.nil_sublist _
  | some value => exact List.Sublist.refl _

theorem lookup_optional (name key : String) (value? : Option F.Value) :
    (optional name value?).lookup key = if key = name then value? else none := by
  cases value? with
  | none => simp [optional]
  | some value => exact NameMap.lookup_cons (name, value) [] key

theorem plain_optional {name : String} {value? : Option F.Value}
    (h : ∀ value ∈ value?, F.Plain value) : ∀ m ∈ optional name value?, F.Plain m.2 := by
  cases value? with
  | none => exact nofun
  | some value => simpa [optional] using h

end Members

section Record

variable (F : ValueFormat) (stamp : Moment → String) (e : Event)

/-- The context of an event as a value, unless it is empty. -/
def contextValue? : Option F.Value :=
  if e.context.isEmpty then none else some (contextValues F e.context)

/-- The members of the record of an event. -/
def members : List (String × F.Value) :=
  [("timestamp", F.text (stamp e.time)), ("level", F.text e.level.name),
      ("code", F.text e.code.name), ("message", F.text e.message),
      ("category", F.text e.code.category), ("severity", F.text e.code.severity.name)] ++
    optional "error_metadata" (if e.isError then some (e.errorMetadata F) else none) ++
    optional "span" (e.span?.map (spanNumbers F)) ++
    optional "context" (e.contextValue? F)

theorem nodup_names : ((e.members F stamp).map Prod.fst).Nodup := by
  have hnames : ((e.members F stamp).map Prod.fst).Sublist
      (["timestamp", "level", "code", "message", "category", "severity"] ++ ["error_metadata"] ++
        ["span"] ++ ["context"]) := by
    simp only [members, List.map_append]
    exact (((List.Sublist.refl _).append (names_optional_sublist _ _)).append
      (names_optional_sublist _ _)).append (names_optional_sublist _ _)
  exact hnames.nodup (by decide)

theorem lookup_members :
    (e.members F stamp).lookup "level" = some (F.text e.level.name) ∧
      (e.members F stamp).lookup "code" = some (F.text e.code.name) ∧
      (e.members F stamp).lookup "message" = some (F.text e.message) ∧
      (e.members F stamp).lookup "span" = e.span?.map (spanNumbers F) ∧
      (e.members F stamp).lookup "context" = e.contextValue? F ∧
      (e.members F stamp).lookup "error_metadata" =
        if e.isError then some (e.errorMetadata F) else none := by
  refine ⟨?_, ?_, ?_, ?_, ?_, ?_⟩ <;>
    simp [members, List.lookup_append, NameMap.lookup_cons, lookup_optional]

variable {F}

/-- Setting members one after another makes an object of all of them. -/
theorem toValue_eq (hF : F.Lawful) : e.toValue F stamp = F.object (e.members F stamp) := by
  rw [toValue, members, contextValue?]
  cases e.isError <;> cases e.span? <;> cases e.context.isEmpty <;>
    simp [optional, hF.set_object]

end Record

/-! ## Plain Values -/

section Plain

variable {F : ValueFormat}

theorem plain_spanNumbers {s : Span} (h : s.InRange) : F.Plain (spanNumbers F s) := by
  have hoffset : ∀ n ≤ Position.maxOffset, F.Plain (F.natural n) := fun n hn =>
    .natural (Nat.lt_of_le_pred (by decide) hn)
  have hline : ∀ n ≤ Position.maxLine, F.Plain (F.natural n) := fun n hn =>
    hoffset n (Nat.le_trans hn (by decide))
  obtain ⟨⟨hstart, hstartLine, hstartColumn⟩, hstop, hstopLine, hstopColumn⟩ := h
  refine .object (by simp) ?_
  simp only [List.forall_mem_cons]
  exact ⟨hoffset _ hstart, hoffset _ hstop, hline _ hstartLine, hline _ hstartColumn,
    hline _ hstopLine, hline _ hstopColumn, nofun⟩

theorem plain_errorMetadata (e : Event) : F.Plain (e.errorMetadata F) := by
  refine .object (by simp) ?_
  simp only [List.forall_mem_cons]
  exact ⟨.flag _, .flag _, .text _, .text _, nofun⟩

theorem names_contextValues (context : Context) :
    (context.map fun entry => (entry.1, F.text entry.2)).map Prod.fst = context.map Prod.fst := by
  rw [List.map_map]
  rfl

theorem plain_contextValue? {e : Event} (h : NameMap.Ascending e.context) :
    ∀ value ∈ e.contextValue? F, F.Plain value := by
  intro value hvalue
  rw [contextValue?] at hvalue
  split at hvalue
  · exact absurd hvalue nofun
  · obtain rfl := Option.some.inj hvalue
    refine .object ((names_contextValues e.context).symm ▸ h.nodup) fun m hm => ?_
    obtain ⟨entry, -, rfl⟩ := List.mem_map.1 hm
    exact .text _

/-- The record of an event is a plain value. -/
theorem plain_toValue (hF : F.Lawful) (stamp : Moment → String) {e : Event}
    (hspan : ∀ s ∈ e.span?, s.InRange) (hcontext : NameMap.Ascending e.context) :
    F.Plain (e.toValue F stamp) := by
  rw [toValue_eq stamp e hF]
  refine .object (e.nodup_names F stamp) ?_
  have hmetadata :
      ∀ value ∈ if e.isError then some (e.errorMetadata F) else none, F.Plain value := by
    split <;> simp [plain_errorMetadata]
  have hnumbers : ∀ value ∈ e.span?.map (spanNumbers F), F.Plain value := by
    intro value hvalue
    obtain ⟨s, hs, rfl⟩ := Option.map_eq_some_iff.1 hvalue
    exact plain_spanNumbers (hspan s hs)
  simp only [members, List.forall_mem_append, List.forall_mem_cons]
  exact ⟨⟨⟨⟨.text _, .text _, .text _, .text _, .text _, .text _, nofun⟩,
    plain_optional hmetadata⟩, plain_optional hnumbers⟩,
    plain_optional (plain_contextValue? hcontext)⟩

end Plain

/-! ## Lines -/

/-- The names that log lines have for levels. -/
def levelNames : List (Level × String) :=
  [(.error, "ERROR"), (.warning, "WARN"), (.info, "INFO"), (.debug, "DEBUG")]

/-- Whether a value is a record of an event: of its level, code and message, of the six numbers of
its span if it has one, and of the last value given to each name if any was given. There is
metadata for errors and for nothing else. -/
structure RecordedAs (F : ValueFormat) (level : Level) (code : Code) (message : String)
    (span? : Option Span) (entries : List (String × String)) (record : F.Value) : Prop where
  level_read : ∃ name, (level, name) ∈ levelNames ∧
    (F.member? record "level").bind F.text? = some name
  code_read : (F.member? record "code").bind F.text? = some code.name
  message_read : (F.member? record "message").bind F.text? = some message
  span_none : span? = none → F.member? record "span" = none
  span_some : ∀ s ∈ span?, ∃ numbers, F.member? record "span" = some numbers ∧
    ∀ m ∈ [("start_offset", s.start.offset), ("end_offset", s.stop.offset),
        ("start_line", s.start.line), ("start_column", s.start.column),
        ("end_line", s.stop.line), ("end_column", s.stop.column)],
      (F.member? numbers m.1).bind F.natural? = some m.2
  context_none : entries = [] → F.member? record "context" = none
  context_some : entries ≠ [] → ∃ values, F.member? record "context" = some values ∧
    ∀ name, F.member? values name = (entries.reverse.lookup name).map F.text
  metadata_iff : (F.member? record "error_metadata").isSome ↔ level = .error

section Lines

variable {F : ValueFormat} (hF : F.Lawful)

include hF

theorem natural?_spanNumbers {s : Span} (h : s.InRange) :
    ∀ m ∈ [("start_offset", s.start.offset), ("end_offset", s.stop.offset),
        ("start_line", s.start.line), ("start_column", s.start.column),
        ("end_line", s.stop.line), ("end_column", s.stop.column)],
      (F.member? (spanNumbers F s) m.1).bind F.natural? = some m.2 := by
  have hoffset : ∀ n ≤ Position.maxOffset, F.natural? (F.natural n) = some n := fun n hn =>
    hF.natural?_natural n (Nat.lt_of_le_pred (by decide) hn)
  have hline : ∀ n ≤ Position.maxLine, F.natural? (F.natural n) = some n := fun n hn =>
    hoffset n (Nat.le_trans hn (by decide))
  obtain ⟨⟨hstart, hstartLine, hstartColumn⟩, hstop, hstopLine, hstopColumn⟩ := h
  have hmember := hF.member?_object [("start_offset", F.natural s.start.offset),
    ("end_offset", F.natural s.stop.offset), ("start_line", F.natural s.start.line),
    ("start_column", F.natural s.start.column), ("end_line", F.natural s.stop.line),
    ("end_column", F.natural s.stop.column)] (by simp)
  simp only [List.forall_mem_cons, spanNumbers, hmember]
  simp [NameMap.lookup_cons, *]

theorem member?_contextValues {context : Context} (h : NameMap.Ascending context) (name : String) :
    F.member? (contextValues F context) name = (NameMap.get? context name).map F.text := by
  rw [contextValues, hF.member?_object _ ((names_contextValues context).symm ▸ h.nodup)]
  exact NameMap.lookup_map F.text context name

/-- The JSON line of an event is written in every lawful format and wording of the time. It has no
control characters, whatever the event holds, and is parsed to a record of the event. -/
theorem formatJson_withAll (stamp : Moment → String) (time : Moment) (level : Level) (code : Code)
    (message : String) {span? : Option Span} (hspan : ∀ s ∈ span?, s.InRange)
    (entries : List (String × String)) :
    let e := withAll { time, level, code, message, span?, context := [] } entries
    ∃ line, e.formatJson F stamp = .ok line ∧ (∀ c ∈ line.toList, 0x20 ≤ c.toNat) ∧
      '\n' ∉ line.toList ∧
      ∃ record, F.parse? line = some record ∧
        RecordedAs F level code message span? entries record := by
  intro e
  -- Adding to the context changes nothing else.
  have he : e = { time, level, code, message, span?, context := e.context } := withAll_eq _ entries
  have hcontext : NameMap.Ascending e.context :=
    ascending_withAll (e := ⟨time, level, code, message, span?, []⟩) List.Pairwise.nil entries
  have hplain : F.Plain (e.toValue F stamp) :=
    plain_toValue hF stamp (by rw [congrArg Event.span? he]; exact hspan) hcontext
  obtain ⟨line, hline, hcontrols⟩ := hF.exists_print hplain
  refine ⟨line, hline, hcontrols, Json.NoControls.feed_notMem hcontrols, e.toValue F stamp,
    hF.parse?_print _ hplain line hline, ?_⟩
  -- All names of the record are different, so a member is what the list has under its name.
  have hread : ∀ name, F.member? (e.toValue F stamp) name = (e.members F stamp).lookup name := by
    rw [toValue_eq stamp e hF]
    exact hF.member?_object _ (e.nodup_names F stamp)
  obtain ⟨hlevel, hcode, hmessage, hnumbers, hvalues, hmetadata⟩ := e.lookup_members F stamp
  have hnil : e.context = [] ↔ entries = [] := context_withAll_eq_nil_iff rfl entries
  constructor
  case level_read =>
    rw [hread, hlevel, congrArg Event.level he]
    exact ⟨level.name, by cases level <;> decide, hF.text?_text _⟩
  case code_read =>
    rw [hread, hcode, congrArg Event.code he]
    exact hF.text?_text _
  case message_read =>
    rw [hread, hmessage, congrArg Event.message he]
    exact hF.text?_text _
  case span_none =>
    rintro rfl
    rw [hread, hnumbers, congrArg Event.span? he, Option.map_none]
  case span_some =>
    intro s hs
    refine ⟨spanNumbers F s, ?_, natural?_spanNumbers hF (hspan s hs)⟩
    rw [hread, hnumbers, congrArg Event.span? he]
    exact congrArg (Option.map (spanNumbers F)) hs
  case context_none =>
    intro hentries
    rw [hread, hvalues, contextValue?, hnil.2 hentries]
    rfl
  case context_some =>
    intro hentries
    have hsome : e.context.isEmpty = false := List.isEmpty_eq_false_iff.2 (mt hnil.1 hentries)
    refine ⟨contextValues F e.context, ?_, fun name => ?_⟩
    · rw [hread, hvalues, contextValue?, hsome]
      rfl
    · rw [member?_contextValues hF hcontext, get?_withAll, NameMap.get?_nil, Option.or_none]
  case metadata_iff =>
    rw [hread, hmetadata, isError, congrArg Event.level he]
    cases level <;> simp

end Lines

/-- In JSON: an error whose message and values have quotes, line feeds and other control
characters, with a name that is set twice. -/
theorem formatJson_withAll_of_controls :
    let time : Moment := ⟨1704067200123⟩
    let message := "bad \"input\"\n\x01"
    let span : Span := ⟨⟨5, 2, 1⟩, ⟨7, 2, 3⟩⟩
    let entries := [("text", "\x1f\\"), ("mode", "EXPRESSION_MODE"), ("text", "\t")]
    let e := withAll ⟨time, .error, .unrecognizedInput, message, some span, []⟩ entries
    Json.valueFormat.Lawful ∧ (∀ s ∈ some span, s.InRange) ∧
    ∃ line, e.formatJson Json.valueFormat Moment.render = .ok line ∧
      (∀ c ∈ line.toList, 0x20 ≤ c.toNat) ∧ '\n' ∉ line.toList ∧
      ∃ record, Json.valueFormat.parse? line = some record ∧
        RecordedAs Json.valueFormat .error .unrecognizedInput message (some span) entries record := by
  intro time message span entries
  have hspan : ∀ s ∈ some span, s.InRange := by decide
  exact ⟨Json.lawful_valueFormat, hspan,
    formatJson_withAll Json.lawful_valueFormat Moment.render time .error .unrecognizedInput message
      hspan entries⟩

end Event

end PipeQuery
