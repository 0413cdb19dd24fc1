-- SUMMARY: Fan-outs over sinks that are kept elsewhere, of which each may be listed more than once.
import PipeQuery.Log.Service

/-! # Shared Sinks

A sink may be handed to a fan-out and kept by the one who made it, who reads or clears it later,
or hands it out again. The sinks then lie in a common pool, and a fan-out lists places in it. -/

namespace PipeQuery

/-- A fan-out that lists places in a pool of sinks. -/
structure SharedFanout where
  level : Level
  pool : List Sink
  listed : List Nat
  deriving DecidableEq, Repr

namespace SharedFanout

/-- Hands an event to the sink at a place, if there is one. -/
def logAt (limits : Limits) (e : Event) (place : Nat) (pool : List Sink) :
    List Sink × List ConsoleLine :=
  match pool[place]? with
  | none => (pool, [])
  | some sink =>
    let (sink, lines) := sink.log limits e
    (pool.set place sink, lines)

/-- Hands an event to the sinks at places, one after another. -/
def logEach (limits : Limits) (e : Event) : List Nat → List Sink → List Sink × List ConsoleLine
  | [], pool => (pool, [])
  | place :: places, pool =>
    let (pool, lines) := logAt limits e place pool
    let (pool, later) := logEach limits e places pool
    (pool, lines ++ later)

def log (limits : Limits) (e : Event) (f : SharedFanout) : SharedFanout × List ConsoleLine :=
  if f.level.admits e.level then
    let (pool, lines) := logEach limits e f.listed f.pool
    ({ f with pool }, lines)
  else (f, [])

/-- The fan-out after events, one after another. -/
def after (limits : Limits) (es : List Event) (f : SharedFanout) : SharedFanout :=
  es.foldl (fun f e => (f.log limits e).1) f

end SharedFanout

end PipeQuery
