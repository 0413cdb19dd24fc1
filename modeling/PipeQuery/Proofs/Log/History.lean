-- SUMMARY: After any events and clearings a journal holds the last of the events that passed both level filters since it was cleared, with their messages cut.
import Mathlib.Data.List.DropRight
import Mathlib.Data.List.Forall2
import PipeQuery.Log.Service
import PipeQuery.Proofs.Text.Offsets

/-! # Journals over Histories

What a journal holds is a function of all that has happened to its service. The last
requests decide, so histories are gone through from their end: one more request either
clears the journal, or adds an event to those logged since, or leaves it alone. -/

namespace PipeQuery

/-! ## Cut Messages -/

/-- Whether `cut` is an event whose message is cut to the most whole characters from its
beginning that fit in `room` bytes, all else unchanged. -/
structure Event.CutTo (room : Nat) (e cut : Event) : Prop where
  unchanged : cut = { e with message := cut.message }
  begins : cut.message.toList <+: e.message.toList
  fits : Text.size cut.message.toList ≤ room
  longest : ∀ p, p <+: e.message.toList → Text.size p ≤ room → p <+: cut.message.toList

/-- The limit is looked for from the end of a message, and found where clipping ends. -/
theorem Service.cut_eq (limits : Limits) (e : Event) :
    cut limits e = { e with
      message := String.ofList (Text.clip limits.maxLogMessageLength e.message.toList) } := by
  unfold cut
  dsimp only
  split
  case isTrue => rw [Text.truncate_floorBoundary]
  case isFalse hshort => rw [Text.clip_of_size_le (Nat.not_lt.1 hshort), String.ofList_toList]

@[simp] theorem Service.level_cut (limits : Limits) (e : Event) :
    (cut limits e).level = e.level := by
  rw [cut_eq]

theorem Service.cutTo_cut (limits : Limits) (e : Event) :
    e.CutTo limits.maxLogMessageLength (cut limits e) := by
  have hmessage : (cut limits e).message.toList =
      Text.clip limits.maxLogMessageLength e.message.toList := by
    rw [cut_eq, String.toList_ofList]
  refine ⟨by rw [cut_eq], ?_, ?_, ?_⟩
  · rw [hmessage]
    exact Text.clip_prefix_self _ _
  · rw [hmessage]
    exact Text.size_clip_le _ _
  · intro p hp hsize
    rw [hmessage]
    exact Text.prefix_clip hp hsize

/-! ## Journals -/

/-- A journal of the last events that were recorded is one after each more event. -/
theorem Journal.record_rtake {capacity : Nat} (h : 0 < capacity) (es : List Event) (e : Event) :
    (Journal.mk (es.rtake capacity)).record capacity e = ⟨(es ++ [e]).rtake capacity⟩ := by
  obtain ⟨k, rfl⟩ : ∃ k, capacity = k + 1 := ⟨capacity - 1, by omega⟩
  have hlast : (es.rtake (k + 1)).drop ((es.rtake (k + 1)).length + 1 - (k + 1)) = es.rtake k := by
    rw [List.rtake, List.rtake, List.drop_drop, List.length_drop]
    congr 1
    omega
  rw [record, hlast, List.rtake_concat_succ]

namespace Service

/-! ## Histories -/

/-- What may happen to a service. -/
inductive Request where
  | log (e : Event)
  /-- The sink with an index is cleared. -/
  | clear (index : Nat)
  deriving DecidableEq

/-- The event that a request logs. -/
def Request.event? : Request → Option Event
  | .log e => some e
  | .clear _ => none

/-- The service after a request. -/
def perform (limits : Limits) (s : Service) : Request → Service
  | .log e => (s.log limits e).1
  | .clear index => s.clear index

/-- The service after requests, one after another. -/
def after (limits : Limits) (requests : List Request) (s : Service) : Service :=
  requests.foldl (perform limits) s

/-- The events that were logged since the sink with an index was cleared last. -/
def loggedSinceClear (index : Nat) (requests : List Request) : List Event :=
  (requests.rtakeWhile (· != .clear index)).filterMap Request.event?

/-- Whether the filters of the service and of its fan-out let an event through. -/
def Admits (s : Service) (e : Event) : Prop :=
  e.level.rank ≤ s.level.rank ∧ e.level.rank ≤ s.fanout.level.rank

instance (s : Service) : DecidablePred s.Admits :=
  fun _ => inferInstanceAs (Decidable (_ ∧ _))

/-- The events that are let through. -/
def admitted (s : Service) (es : List Event) : List Event :=
  es.filter fun e => s.Admits e

theorem admitted_append (s : Service) (es later : List Event) :
    s.admitted (es ++ later) = s.admitted es ++ s.admitted later :=
  List.filter_append ..

theorem admitted_congr {s t : Service} (h : s.Admits = t.Admits) : s.admitted = t.admitted := by
  funext es
  unfold admitted
  simp only [h]

/-! ## One Request -/

section Step

variable {limits : Limits} {s : Service} {e : Event}

/-- An event that is let through goes to every sink, with its message cut. -/
theorem log_of_admits (h : s.Admits e) :
    (s.log limits e).1 = { s with fanout := { s.fanout with
      sinks := s.fanout.sinks.map fun sink => (sink.log limits (cut limits e)).1 } } := by
  have hservice : s.level.admits e.level = true := decide_eq_true h.1
  have hfanout : s.fanout.level.admits (cut limits e).level = true := by
    rw [level_cut]
    exact decide_eq_true h.2
  simp only [log, hservice, Fanout.log, hfanout, if_true, List.map_map]
  rfl

theorem log_of_not_admits (h : ¬s.Admits e) : (s.log limits e).1 = s := by
  rw [log]
  split
  case isFalse => rfl
  case isTrue hservice =>
    have hfanout : ¬s.fanout.level.admits (cut limits e).level = true :=
      fun hfanout => h ⟨of_decide_eq_true hservice, of_decide_eq_true (level_cut limits e ▸ hfanout)⟩
    rw [Fanout.log, if_neg hfanout]

/-- A journal of the last events takes one more, unless a filter stops it. -/
theorem sink_log (hroom : 0 < limits.logBufferSize) {index : Nat} {es : List Event}
    (hsink : s.fanout.sinks[index]? = some (.journal ⟨es.rtake limits.logBufferSize⟩)) (e : Event) :
    (s.log limits e).1.fanout.sinks[index]? =
      some (.journal ⟨(es ++ (s.admitted [e]).map (cut limits)).rtake limits.logBufferSize⟩) := by
  by_cases h : s.Admits e
  · have hadmitted : s.admitted [e] = [e] := by simp [admitted, h]
    rw [log_of_admits h, hadmitted, List.map_singleton, ← Journal.record_rtake hroom,
      List.getElem?_map, hsink]
    rfl
  · have hadmitted : s.admitted [e] = [] := by simp [admitted, h]
    rw [log_of_not_admits h, hadmitted, List.map_nil, List.append_nil, hsink]

/-- No request changes a filter. -/
theorem admits_perform (request : Request) : (s.perform limits request).Admits = s.Admits := by
  cases request with
  | clear index => rfl
  | log e =>
    by_cases h : s.Admits e
    · rw [perform, log_of_admits h]
      rfl
    · rw [perform, log_of_not_admits h]

end Step

/-! ## All Requests -/

section Run

variable {limits : Limits} {s : Service} {index : Nat}

@[simp] theorem after_nil : s.after limits [] = s := rfl

theorem after_append_singleton (requests : List Request) (request : Request) :
    s.after limits (requests ++ [request]) = (s.after limits requests).perform limits request := by
  rw [after, List.foldl_append]
  rfl

theorem admits_after (requests : List Request) : (s.after limits requests).Admits = s.Admits := by
  induction requests using List.reverseRecOn with
  | nil => rfl
  | append_singleton requests request ih => rw [after_append_singleton, admits_perform, ih]

theorem admitted_after (requests : List Request) :
    (s.after limits requests).admitted = s.admitted :=
  admitted_congr (admits_after requests)

theorem loggedSinceClear_log (requests : List Request) (e : Event) :
    loggedSinceClear index (requests ++ [.log e]) = loggedSinceClear index requests ++ [e] := by
  rw [loggedSinceClear, List.rtakeWhile_concat_pos _ _ _ (by rfl), List.filterMap_append]
  rfl

theorem loggedSinceClear_clear (requests : List Request) (other : Nat) :
    loggedSinceClear index (requests ++ [.clear other]) =
      if other = index then [] else loggedSinceClear index requests := by
  by_cases h : other = index
  · subst h
    simp [loggedSinceClear]
  · rw [loggedSinceClear, List.rtakeWhile_concat_pos _ _ _ (by simpa using h), List.filterMap_append,
      if_neg h]
    exact List.append_nil _

/-- A journal that is empty at first holds the last events that were let through since it
was cleared, each as it was cut. -/
theorem sink_after (hroom : 0 < limits.logBufferSize)
    (hsink : s.fanout.sinks[index]? = some (.journal .empty)) (requests : List Request) :
    (s.after limits requests).fanout.sinks[index]? =
      some (.journal ⟨((s.admitted (loggedSinceClear index requests)).map (cut limits)).rtake
        limits.logBufferSize⟩) := by
  induction requests using List.reverseRecOn with
  | nil =>
    simp [hsink, loggedSinceClear, admitted, Journal.empty]
  | append_singleton requests request ih =>
    rw [after_append_singleton]
    cases request with
    | clear other =>
      have hsinks : ((s.after limits requests).perform limits (.clear other)).fanout.sinks =
          (s.after limits requests).fanout.sinks.modify other Sink.clear := rfl
      rw [hsinks, List.getElem?_modify, ih, loggedSinceClear_clear]
      split
      · exact congrArg (some ∘ Sink.journal ∘ Journal.mk) (List.rtake_nil _).symm
      · rfl
    | log e =>
      rw [loggedSinceClear_log, admitted_append, List.map_append, perform, sink_log hroom ih,
        admitted_after]

/-- After any requests, each journal among the sinks holds exactly the last events, as many
as it has room for, of those logged since it was cleared whose level neither filter stops.
They are in the order of logging and unchanged but for their messages, which are cut. -/
theorem journal_holds_last (hroom : 0 < limits.logBufferSize)
    (hsink : s.fanout.sinks[index]? = some (.journal .empty)) (requests : List Request) :
    ∃ journal, (s.after limits requests).fanout.sinks[index]? = some (.journal journal) ∧
      List.Forall₂ (Event.CutTo limits.maxLogMessageLength)
        ((s.admitted (loggedSinceClear index requests)).rtake limits.logBufferSize)
        journal.events := by
  refine ⟨_, sink_after hroom hsink requests, ?_⟩
  generalize s.admitted (loggedSinceClear index requests) = es
  have hcut : (es.map (cut limits)).rtake limits.logBufferSize =
      (es.rtake limits.logBufferSize).map (cut limits) := by
    rw [List.rtake, List.length_map, List.rtake, List.map_drop]
  rw [hcut, List.forall₂_map_right_iff, List.forall₂_same]
  exact fun e _ => cutTo_cut limits e

/-- Two journals and a console behind filters for warnings and information. The second
journal was cleared in between and has room for two of the three events let through since;
a message is cut before a character that does not fit. -/
theorem journal_holds_last_of_cleared :
    let limits := { Limits.production with logBufferSize := 2, maxLogMessageLength := 3 }
    let s : Service := ⟨.warning, ⟨.info, [.journal .empty, .console .plain .error, .journal .empty]⟩⟩
    let requests : List Request :=
      [.log (.error .epoch .warning "lost"), .clear 2, .log (.warning .epoch "gone"),
        .log (.info .epoch "stopped"), .log (.warning .epoch "aéé"), .clear 0,
        .log (.error .epoch .warning "ok")]
    0 < limits.logBufferSize ∧ s.fanout.sinks[2]? = some (.journal .empty) ∧
      ∃ journal, (s.after limits requests).fanout.sinks[2]? = some (.journal journal) ∧
        List.Forall₂ (Event.CutTo limits.maxLogMessageLength)
          [.warning .epoch "aéé", .error .epoch .warning "ok"] journal.events := by
  intro limits s requests
  have hroom : 0 < limits.logBufferSize := by decide
  have hsink : s.fanout.sinks[2]? = some (.journal .empty) := rfl
  exact ⟨hroom, hsink, journal_holds_last hroom hsink requests⟩

/-! ## Many Events -/

theorem logAll_eq_after (es : List Event) :
    (s.logAll limits es).1 = s.after limits (es.map .log) := by
  suffices h : ∀ printed, (s.logAllFrom limits printed es).1 = s.after limits (es.map .log) from h []
  induction es generalizing s with
  | nil => exact fun _ => rfl
  | cons e es ih => exact fun _ => ih _

/-- A journal within its capacity takes the events of a list that are let through, each as it
is cut, and gives up its oldest for them. -/
theorem sink_logAll (hroom : 0 < limits.logBufferSize) {before : Journal}
    (hbefore : before.size ≤ limits.logBufferSize)
    (hsink : s.fanout.sinks[index]? = some (.journal before)) (es : List Event) :
    (s.logAll limits es).1.fanout.sinks[index]? =
      some (.journal ⟨(before.events ++ (s.admitted es).map (cut limits)).rtake
        limits.logBufferSize⟩) := by
  rw [logAll_eq_after]
  induction es using List.reverseRecOn with
  | nil =>
    have hall : before.events.rtake limits.logBufferSize = before.events := by
      have hnone : before.events.length - limits.logBufferSize = 0 := Nat.sub_eq_zero_of_le hbefore
      rw [List.rtake, hnone, List.drop_zero]
    simp [hsink, admitted, hall]
  | append_singleton es e ih =>
    rw [List.map_append, List.map_singleton, after_append_singleton, perform, sink_log hroom ih,
      admitted_after, admitted_append, List.map_append, List.append_assoc]

end Run

end Service

end PipeQuery
