-- SUMMARY: A journal that a fan-out lists several times records each event as often; where every sink is listed once, sharing makes no difference.
import PipeQuery.Log.Shared
import PipeQuery.Proofs.Log.History

/-! # Journals in Common

What becomes of a sink in a pool depends on how often it is listed, and not on what is listed
beside it. -/

namespace PipeQuery

/-- A sink after events that are handed to it directly. -/
def Sink.after (limits : Limits) (es : List Event) (sink : Sink) : Sink :=
  es.foldl (fun sink e => (sink.log limits e).1) sink

/-- A journal of the last events is one after any more events. -/
theorem Sink.after_journal {limits : Limits} (hroom : 0 < limits.logBufferSize)
    (es later : List Event) :
    (Sink.journal ⟨es.rtake limits.logBufferSize⟩).after limits later =
      .journal ⟨(es ++ later).rtake limits.logBufferSize⟩ := by
  induction later generalizing es with
  | nil => rw [after, List.foldl_nil, List.append_nil]
  | cons e later ih =>
    rw [List.append_cons, ← ih, ← Journal.record_rtake hroom]
    rfl

namespace SharedFanout

variable {limits : Limits} {f : SharedFanout}

/-! ## One Event -/

theorem getElem?_logAt (e : Event) (place : Nat) (pool : List Sink) (i : Nat) :
    (logAt limits e place pool).1[i]? =
      pool[i]?.map fun sink => if place = i then (sink.log limits e).1 else sink := by
  unfold logAt
  split
  case h_1 hnone =>
    by_cases hi : place = i
    · rw [← hi, hnone]
      rfl
    · simp [hi]
  case h_2 sink hsink =>
    rw [List.getElem?_set]
    by_cases hi : place = i
    · subst hi
      have hlt : place < pool.length := (List.getElem?_eq_some_iff.1 hsink).1
      simp only [hsink, if_pos, hlt, Option.map_some]
    · simp [hi]

/-- Each sink takes the event as often as it is listed. -/
theorem getElem?_logEach (e : Event) (places : List Nat) (pool : List Sink) (i : Nat) :
    (logEach limits e places pool).1[i]? =
      pool[i]?.map (Sink.after limits (List.replicate (places.count i) e)) := by
  induction places generalizing pool with
  | nil =>
    exact Option.map_id'.symm
  | cons place places ih =>
    have hstep : (logEach limits e (place :: places) pool).1 =
        (logEach limits e places (logAt limits e place pool).1).1 := rfl
    rw [hstep, ih, getElem?_logAt, Option.map_map, List.count_cons]
    refine congrArg (Option.map · _) (funext fun sink => ?_)
    by_cases hi : place = i
    · simp [hi, List.replicate_succ, Sink.after]
    · simp [hi]

theorem getElem?_log (limits : Limits) (f : SharedFanout) (e : Event) (i : Nat) :
    (f.log limits e).1.pool[i]? = f.pool[i]?.map
      (Sink.after limits
        (if f.level.admits e.level then List.replicate (f.listed.count i) e else [])) := by
  rw [log]
  split
  case isTrue => exact getElem?_logEach e f.listed f.pool i
  case isFalse => exact Option.map_id'.symm

/-! ## Many Events -/

/-- An event does not change what a fan-out lists and admits. -/
theorem log_settings (limits : Limits) (f : SharedFanout) (e : Event) :
    (f.log limits e).1.level = f.level ∧ (f.log limits e).1.listed = f.listed := by
  rw [log]
  split <;> exact ⟨rfl, rfl⟩

/-- After any events, a journal that was empty at first holds the last ones that the fan-out
lets through, each of them as often as the journal is listed. -/
theorem journal_after (hroom : 0 < limits.logBufferSize) {i : Nat}
    (hsink : f.pool[i]? = some (.journal .empty)) (es : List Event) :
    (f.after limits es).pool[i]? = some (.journal
      ⟨((es.filter fun e => f.level.admits e.level).flatMap
        (List.replicate (f.listed.count i))).rtake limits.logBufferSize⟩) := by
  suffices h : ∀ before : List Event,
      f.pool[i]? = some (.journal ⟨before.rtake limits.logBufferSize⟩) →
      (f.after limits es).pool[i]? = some (.journal ⟨(before ++
        (es.filter fun e => f.level.admits e.level).flatMap
          (List.replicate (f.listed.count i))).rtake limits.logBufferSize⟩) by
    exact h [] (hsink.trans (by rw [List.rtake_nil]; rfl))
  clear hsink
  induction es generalizing f with
  | nil =>
    intro before hsink
    rw [List.filter_nil, List.flatMap_nil, List.append_nil]
    exact hsink
  | cons e es ih =>
    intro before hsink
    obtain ⟨hlevel, hlisted⟩ := log_settings limits f e
    have htaken := getElem?_log limits f e i
    rw [hsink, Option.map_some, Sink.after_journal hroom] at htaken
    have hrest := ih _ htaken
    rw [hlevel, hlisted, List.append_assoc] at hrest
    refine hrest.trans ?_
    by_cases hadmits : f.level.admits e.level = true
    · simp [hadmits]
    · simp [hadmits]

/-- A journal that is listed twice has room for two events, and keeps the last one twice. -/
example :
    let limits := { Limits.production with logBufferSize := 2 }
    let f : SharedFanout := ⟨.info, [.console .plain .error, .journal .empty], [1, 0, 1]⟩
    (f.after limits [.warning .epoch "a", .warning .epoch "b"]).pool[1]? =
      some (.journal ⟨[.warning .epoch "b", .warning .epoch "b"]⟩) := by
  rfl

/-! ## Sinks of Its Own -/

theorem logEach_range' (limits : Limits) (e : Event) (before sinks : List Sink) :
    logEach limits e (List.range' before.length sinks.length) (before ++ sinks) =
      (before ++ sinks.map fun sink => (sink.log limits e).1,
        sinks.flatMap fun sink => (sink.log limits e).2) := by
  induction sinks generalizing before with
  | nil => rfl
  | cons sink sinks ih =>
    have hfirst : logAt limits e before.length (before ++ sink :: sinks) =
        (before ++ [(sink.log limits e).1] ++ sinks, (sink.log limits e).2) := by
      rw [logAt, List.getElem?_append_right (Nat.le_refl _), Nat.sub_self, List.getElem?_cons_zero]
      simp
    have hrest := ih (before ++ [(sink.log limits e).1])
    rw [List.length_append, List.length_singleton] at hrest
    rw [List.length_cons, List.range'_succ, logEach, hfirst]
    dsimp only
    rw [hrest, List.append_assoc]
    rfl

/-- Where every sink is listed once, in order, a fan-out over a pool does what one does that
holds its sinks itself. -/
theorem log_eq_of_range (e : Event) (hlisted : f.listed = List.range f.pool.length) :
    (f.log limits e).1.pool = (Fanout.log limits e ⟨f.level, f.pool⟩).1.sinks ∧
      (f.log limits e).2 = (Fanout.log limits e ⟨f.level, f.pool⟩).2 := by
  rw [log, Fanout.log]
  split
  case isTrue =>
    have hall := logEach_range' limits e [] f.pool
    rw [List.length_nil, ← List.range_eq_range', ← hlisted, List.nil_append] at hall
    rw [hall]
    simp [List.flatMap_map]
  case isFalse => exact ⟨rfl, rfl⟩

end SharedFanout

end PipeQuery
