-- SUMMARY: Command words, clause words, operators and punctuation, with their literal and symbolic names.

/-! # Vocabulary Words

Families of tokens with a fixed spelling. The vocabulary gives most of them a
literal name, which is that spelling between apostrophes, in lower case where case
does not matter, and all of them a symbolic name. What the lexer reads is not
said here but by its rules. -/

namespace PipeQuery

/-! ## Command Words -/

/-- A word that opens a command. -/
inductive Command where
  | dissect
  | drop
  | enrich
  | eval
  | explain
  | from_
  | grok
  | inlineStats
  | keep
  | limit
  | lookup
  | meta_
  | metrics
  | mvExpand
  | rename
  | row
  | show_
  | sort
  | stats
  | where_
  | match_
  deriving DecidableEq, Repr

namespace Command

/-- Every command word, in vocabulary order. -/
def all : List Command :=
  [.dissect, .drop, .enrich, .eval, .explain, .from_, .grok, .inlineStats, .keep, .limit, .lookup,
    .meta_, .metrics, .mvExpand, .rename, .row, .show_, .sort, .stats, .where_, .match_]

def literalName? : Command → Option String
  | .dissect => some "'dissect'"
  | .drop => some "'drop'"
  | .enrich => some "'enrich'"
  | .eval => some "'eval'"
  | .explain => some "'explain'"
  | .from_ => some "'from'"
  | .grok => some "'grok'"
  | .inlineStats => some "'inlinestats'"
  | .keep => some "'keep'"
  | .limit => some "'limit'"
  | .lookup => some "'lookup'"
  | .meta_ => some "'meta'"
  | .metrics => some "'metrics'"
  | .mvExpand => some "'mv_expand'"
  | .rename => some "'rename'"
  | .row => some "'row'"
  | .show_ => some "'show'"
  | .sort => some "'sort'"
  | .stats => some "'stats'"
  | .where_ => some "'where'"
  | .match_ => none

def name : Command → String
  | .dissect => "DISSECT"
  | .drop => "DROP"
  | .enrich => "ENRICH"
  | .eval => "EVAL"
  | .explain => "EXPLAIN"
  | .from_ => "FROM"
  | .grok => "GROK"
  | .inlineStats => "INLINESTATS"
  | .keep => "KEEP"
  | .limit => "LIMIT"
  | .lookup => "LOOKUP"
  | .meta_ => "META"
  | .metrics => "METRICS"
  | .mvExpand => "MV_EXPAND"
  | .rename => "RENAME"
  | .row => "ROW"
  | .show_ => "SHOW"
  | .sort => "SORT"
  | .stats => "STATS"
  | .where_ => "WHERE"
  | .match_ => "MATCH"

end Command

/-! ## Clause Words -/

/-- A word with a fixed meaning inside a command. -/
inductive Clause where
  | by_
  | and_
  | asc
  | desc
  | false_
  | first
  | in_
  | is_
  | last
  | like
  | matchOperator
  | not_
  | null
  | nulls
  | or_
  | rlike
  | true_
  | metadata
  | as_
  | on_
  | with_
  | info
  | functions
  deriving DecidableEq, Repr

namespace Clause

def literalName? : Clause → Option String
  | .by_ => some "'by'"
  | .and_ => some "'and'"
  | .asc => some "'asc'"
  | .desc => some "'desc'"
  | .false_ => some "'false'"
  | .first => some "'first'"
  | .in_ => some "'in'"
  | .is_ => some "'is'"
  | .last => some "'last'"
  | .like => some "'like'"
  | .matchOperator => none
  | .not_ => some "'not'"
  | .null => some "'null'"
  | .nulls => some "'nulls'"
  | .or_ => some "'or'"
  | .rlike => some "'rlike'"
  | .true_ => some "'true'"
  | .metadata => some "'metadata'"
  | .as_ => some "'as'"
  | .on_ => some "'on'"
  | .with_ => some "'with'"
  | .info => some "'info'"
  | .functions => some "'functions'"

def name : Clause → String
  | .by_ => "BY"
  | .and_ => "AND"
  | .asc => "ASC"
  | .desc => "DESC"
  | .false_ => "FALSE"
  | .first => "FIRST"
  | .in_ => "IN"
  | .is_ => "IS"
  | .last => "LAST"
  | .like => "LIKE"
  | .matchOperator => "MATCH_OPERATOR"
  | .not_ => "NOT"
  | .null => "NULL"
  | .nulls => "NULLS"
  | .or_ => "OR"
  | .rlike => "RLIKE"
  | .true_ => "TRUE"
  | .metadata => "METADATA"
  | .as_ => "AS"
  | .on_ => "ON"
  | .with_ => "WITH"
  | .info => "INFO"
  | .functions => "FUNCTIONS"

end Clause

/-! ## Operators -/

/-- An operator that compares two values. -/
inductive Comparison where
  | eq
  /-- Equality that ignores case. -/
  | cieq
  | neq
  | lt
  | lte
  | gt
  | gte
  deriving DecidableEq, Repr

namespace Comparison

def literalName : Comparison → String
  | .eq => "'=='"
  | .cieq => "'=~'"
  | .neq => "'!='"
  | .lt => "'<'"
  | .lte => "'<='"
  | .gt => "'>'"
  | .gte => "'>='"

def name : Comparison → String
  | .eq => "EQ"
  | .cieq => "CIEQ"
  | .neq => "NEQ"
  | .lt => "LT"
  | .lte => "LTE"
  | .gt => "GT"
  | .gte => "GTE"

end Comparison

/-- An operator that calculates. -/
inductive Arithmetic where
  | plus
  | minus
  | asterisk
  | slash
  | percent
  deriving DecidableEq, Repr

namespace Arithmetic

def literalName : Arithmetic → String
  | .plus => "'+'"
  | .minus => "'-'"
  | .asterisk => "'*'"
  | .slash => "'/'"
  | .percent => "'%'"

def name : Arithmetic → String
  | .plus => "PLUS"
  | .minus => "MINUS"
  | .asterisk => "ASTERISK"
  | .slash => "SLASH"
  | .percent => "PERCENT"

end Arithmetic

/-! ## Punctuation -/

/-- A mark that separates or groups. -/
inductive Punctuation where
  | pipe
  | comma
  | dot
  | lp
  | rp
  | openingBracket
  | closingBracket
  | colon
  deriving DecidableEq, Repr

namespace Punctuation

def literalName? : Punctuation → Option String
  | .pipe => some "'|'"
  | .comma => some "','"
  | .dot => some "'.'"
  | .lp => some "'('"
  | .rp => some "')'"
  | .openingBracket => none
  | .closingBracket => some "']'"
  | .colon => some "':'"

def name : Punctuation → String
  | .pipe => "PIPE"
  | .comma => "COMMA"
  | .dot => "DOT"
  | .lp => "LP"
  | .rp => "RP"
  | .openingBracket => "OPENING_BRACKET"
  | .closingBracket => "CLOSING_BRACKET"
  | .colon => "COLON"

end Punctuation

end PipeQuery
