-- SUMMARY: The lexer modes, their grammar names, and the actions rules perform on the mode stack.

/-! # Modes

Which rules apply depends on the command being read. A command word pushes the
mode of its arguments, a pipe pops back, and a few rules switch or push twice. -/

namespace PipeQuery

/-- A named set of rules. -/
inductive Mode where
  | default
  | explain
  | expression
  | from_
  | project
  | rename
  | enrich
  | enrichField
  | lookup
  | lookupField
  | mvExpand
  | show_
  | meta_
  | setting
  | metrics
  | closingMetrics
  deriving DecidableEq, Repr

namespace Mode

def all : List Mode :=
  [.default, .explain, .expression, .from_, .project, .rename, .enrich, .enrichField, .lookup,
    .lookupField, .mvExpand, .show_, .meta_, .setting, .metrics, .closingMetrics]

theorem mem_all (m : Mode) : m ∈ all := by
  cases m <;> decide

/-- The place of a mode in grammar order. -/
def index (m : Mode) : Nat := all.idxOf m

/-- The mode's short label. -/
def label : Mode → String
  | .default => "Default"
  | .explain => "Explain"
  | .expression => "Expression"
  | .from_ => "From"
  | .project => "Project"
  | .rename => "Rename"
  | .enrich => "Enrich"
  | .enrichField => "EnrichField"
  | .lookup => "Lookup"
  | .lookupField => "LookupField"
  | .mvExpand => "MvExpand"
  | .show_ => "Show"
  | .meta_ => "Meta"
  | .setting => "Setting"
  | .metrics => "Metrics"
  | .closingMetrics => "ClosingMetrics"

/-- The mode's name in the grammar. -/
def name : Mode → String
  | .default => "DEFAULT_MODE"
  | .explain => "EXPLAIN_MODE"
  | .expression => "EXPRESSION_MODE"
  | .from_ => "FROM_MODE"
  | .project => "PROJECT_MODE"
  | .rename => "RENAME_MODE"
  | .enrich => "ENRICH_MODE"
  | .enrichField => "ENRICH_FIELD_MODE"
  | .lookup => "LOOKUP_MODE"
  | .lookupField => "LOOKUP_FIELD_MODE"
  | .mvExpand => "MVEXPAND_MODE"
  | .show_ => "SHOW_MODE"
  | .meta_ => "META_MODE"
  | .setting => "SETTING_MODE"
  | .metrics => "METRICS_MODE"
  | .closingMetrics => "CLOSING_METRICS_MODE"

def ofName? (name : String) : Option Mode :=
  all.find? (·.name == name)

end Mode

/-- What a rule does to the mode stack. -/
inductive ModeAction where
  | push (mode : Mode)
  | pop
  /-- Pops, then pushes. -/
  | switch (mode : Mode)
  deriving DecidableEq, Repr

end PipeQuery
