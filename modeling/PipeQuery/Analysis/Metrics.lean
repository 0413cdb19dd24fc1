-- SUMMARY: Counters of an analysis, kept token by token: by channel, by class and by mode.
import PipeQuery.Mode.Basic
import PipeQuery.Settings.Preferences
import PipeQuery.Token.Basic

/-! # Metrics -/

namespace PipeQuery

/-- Counters of an analysis. The end of input is not counted. -/
structure Metrics where
  /-- The significant tokens, and the hidden ones if they are to be counted. -/
  total : Nat
  significant : Nat
  hidden : Nat
  keyword : Nat
  identifier : Nat
  literal : Nat
  operator : Nat
  punctuation : Nat
  parameter : Nat
  comment : Nat
  whitespace : Nat
  unknown : Nat
  /-- The largest depth of the mode stack. -/
  maxModeDepth : Nat
  /-- How many pushes the mode stack refused. -/
  droppedPushes : Nat
  /-- The counted tokens by the mode they were read in, in order of first use. -/
  perMode : List (Mode × Nat)
  deriving DecidableEq, Repr

namespace Metrics

def zero : Metrics where
  total := 0
  significant := 0
  hidden := 0
  keyword := 0
  identifier := 0
  literal := 0
  operator := 0
  punctuation := 0
  parameter := 0
  comment := 0
  whitespace := 0
  unknown := 0
  maxModeDepth := 0
  droppedPushes := 0
  perMode := []

/-! ## Counting -/

/-- Counts a token of a class. Special tokens are in no class. -/
def countClass (m : Metrics) : TokenClass → Metrics
  | .keyword => { m with keyword := m.keyword + 1 }
  | .identifier => { m with identifier := m.identifier + 1 }
  | .literal => { m with literal := m.literal + 1 }
  | .operator => { m with operator := m.operator + 1 }
  | .punctuation => { m with punctuation := m.punctuation + 1 }
  | .parameter => { m with parameter := m.parameter + 1 }
  | .comment => { m with comment := m.comment + 1 }
  | .whitespace => { m with whitespace := m.whitespace + 1 }
  | .special => m

def countMode (mode : Mode) : List (Mode × Nat) → List (Mode × Nat)
  | [] => [(mode, 1)]
  | (m, n) :: counts => if m = mode then (m, n + 1) :: counts else (m, n) :: countMode mode counts

/-- Counts a token towards the total, its class and its mode. -/
def countToken (p : LexicalPreferences) (mode : Mode) (t : Token) (m : Metrics) : Metrics :=
  let m := { m with total := m.total + 1 }.countClass t.kind.tokenClass
  let m := if t.isUnknown then { m with unknown := m.unknown + 1 } else m
  if p.collectDetailedMetrics then { m with perMode := countMode mode m.perMode } else m

/-- Takes note of a token that was read in a mode. -/
def record (p : LexicalPreferences) (m : Metrics) (mode : Mode) (t : Token) : Metrics :=
  if t.isEof then m
  else if t.isHidden then
    let m := { m with hidden := m.hidden + 1 }
    if p.includeHiddenInCounts then m.countToken p mode t else m
  else { m with significant := m.significant + 1 }.countToken p mode t

end Metrics

end PipeQuery
