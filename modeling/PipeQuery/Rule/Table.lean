-- SUMMARY: The rule tables of the sixteen modes, in the order of the grammar.
import PipeQuery.Rule.Basic

/-! # Rule Tables

Keywords stand before the identifiers and sources that would accept them too,
since of equally long matches the first rule wins. -/

namespace PipeQuery

namespace RuleTable

open Rule

/-- A line comment, a block comment and whitespace. -/
def triviaOf (mode : Mode) : List Rule :=
  [trivia mode .lineComment, trivia mode .blockComment, trivia mode .whitespace]

/-! ## Command Position -/

def default : List Rule :=
  [word "DISSECT" "dissect" (.command .dissect) [.push .expression],
    word "DROP" "drop" (.command .drop) [.push .project],
    word "ENRICH" "enrich" (.command .enrich) [.push .enrich],
    word "EVAL" "eval" (.command .eval) [.push .expression],
    word "EXPLAIN" "explain" (.command .explain) [.push .explain],
    word "FROM" "from" (.command .from_) [.push .from_],
    word "GROK" "grok" (.command .grok) [.push .expression],
    word "INLINESTATS" "inlinestats" (.command .inlineStats) [.push .expression],
    word "KEEP" "keep" (.command .keep) [.push .project],
    word "LIMIT" "limit" (.command .limit) [.push .expression],
    word "LOOKUP" "lookup" (.command .lookup) [.push .lookup],
    word "META" "meta" (.command .meta_) [.push .meta_],
    word "METRICS" "metrics" (.command .metrics) [.push .metrics],
    word "MV_EXPAND" "mv_expand" (.command .mvExpand) [.push .mvExpand],
    word "RENAME" "rename" (.command .rename) [.push .rename],
    word "ROW" "row" (.command .row) [.push .expression],
    word "SHOW" "show" (.command .show_) [.push .show_],
    word "SORT" "sort" (.command .sort) [.push .expression],
    word "STATS" "stats" (.command .stats) [.push .expression],
    word "WHERE" "where" (.command .where_) [.push .expression],
    word "MATCH" "match" (.command .match_) [.push .expression],
    visible "UNKNOWN_CMD" .unknownCommand .unknownCommand [.push .expression]] ++
  triviaOf .default ++
  [visible "UNQUOTED_SOURCE" .unquotedSource (.naming .unquotedSource) []]

def explain : List Rule :=
  [sign "EXPLAIN_OPENING_BRACKET" "[" (.punctuation .openingBracket) [.push .default],
    sign "EXPLAIN_PIPE" "|" (.punctuation .pipe) [.pop],
    trivia .explain .whitespace,
    trivia .explain .lineComment,
    trivia .explain .blockComment]

/-! ## Expressions -/

def expression : List Rule :=
  [sign "PIPE" "|" (.punctuation .pipe) [.pop],
    visible "QUOTED_STRING" .quotedString (.literal .quotedString) [],
    visible "INTEGER_LITERAL" .integer (.literal .integer) [],
    visible "DECIMAL_LITERAL" .decimal (.literal .decimal) [],
    word "BY" "by" (.clause .by_) [],
    word "AND" "and" (.clause .and_) [],
    word "ASC" "asc" (.clause .asc) [],
    sign "ASSIGN" "=" .assign [],
    sign "CAST_OP" "::" .castOp [],
    sign "COMMA" "," (.punctuation .comma) [],
    word "DESC" "desc" (.clause .desc) [],
    sign "DOT" "." (.punctuation .dot) [],
    word "FALSE" "false" (.clause .false_) [],
    word "FIRST" "first" (.clause .first) [],
    word "IN" "in" (.clause .in_) [],
    word "IS" "is" (.clause .is_) [],
    word "LAST" "last" (.clause .last) [],
    word "LIKE" "like" (.clause .like) [],
    sign "LP" "(" (.punctuation .lp) [],
    word "MATCH_OPERATOR" "match" (.clause .matchOperator) [],
    word "NOT" "not" (.clause .not_) [],
    word "NULL" "null" (.clause .null) [],
    word "NULLS" "nulls" (.clause .nulls) [],
    word "OR" "or" (.clause .or_) [],
    sign "PARAM" "?" .param [],
    word "RLIKE" "rlike" (.clause .rlike) [],
    sign "RP" ")" (.punctuation .rp) [],
    word "TRUE" "true" (.clause .true_) [],
    sign "EQ" "==" (.comparison .eq) [],
    sign "CIEQ" "=~" (.comparison .cieq) [],
    sign "NEQ" "!=" (.comparison .neq) [],
    sign "LT" "<" (.comparison .lt) [],
    sign "LTE" "<=" (.comparison .lte) [],
    sign "GT" ">" (.comparison .gt) [],
    sign "GTE" ">=" (.comparison .gte) [],
    sign "PLUS" "+" (.arithmetic .plus) [],
    sign "MINUS" "-" (.arithmetic .minus) [],
    sign "ASTERISK" "*" (.arithmetic .asterisk) [],
    sign "SLASH" "/" (.arithmetic .slash) [],
    sign "PERCENT" "%" (.arithmetic .percent) [],
    visible "NAMED_OR_POSITIONAL_PARAM" .parameter .namedParam [],
    sign "OPENING_BRACKET" "[" (.punctuation .openingBracket) [.push .expression, .push .expression],
    sign "CLOSING_BRACKET" "]" (.punctuation .closingBracket) [.pop, .pop],
    visible "UNQUOTED_IDENTIFIER" .unquotedIdentifier (.naming .unquotedIdentifier) [],
    visible "QUOTED_IDENTIFIER" .quotedIdentifier (.naming .quotedIdentifier) []] ++
  triviaOf .expression

/-! ## Source Commands -/

def from_ : List Rule :=
  [sign "FROM_PIPE" "|" (.punctuation .pipe) [.pop],
    sign "FROM_OPENING_BRACKET" "[" (.punctuation .openingBracket) [],
    sign "FROM_CLOSING_BRACKET" "]" (.punctuation .closingBracket) [],
    sign "FROM_COLON" ":" (.punctuation .colon) [],
    sign "FROM_COMMA" "," (.punctuation .comma) [],
    sign "FROM_ASSIGN" "=" .assign [],
    word "METADATA" "metadata" (.clause .metadata) [],
    visible "FROM_UNQUOTED_SOURCE" .unquotedSource (.naming .unquotedSource) [],
    visible "FROM_QUOTED_SOURCE" .quotedString (.literal .quotedString) []] ++
  triviaOf .from_

def metrics : List Rule :=
  [sign "METRICS_PIPE" "|" (.punctuation .pipe) [.pop],
    visible "METRICS_UNQUOTED_SOURCE" .unquotedSource (.naming .unquotedSource)
      [.switch .closingMetrics],
    visible "METRICS_QUOTED_SOURCE" .quotedString (.literal .quotedString)
      [.switch .closingMetrics]] ++
  triviaOf .metrics

def closingMetrics : List Rule :=
  [sign "CLOSING_METRICS_COLON" ":" (.punctuation .colon) [.switch .metrics],
    sign "CLOSING_METRICS_COMMA" "," (.punctuation .comma) [.switch .metrics]] ++
  triviaOf .closingMetrics ++
  [visible "CLOSING_METRICS_QUOTED_IDENTIFIER" .quotedIdentifier (.naming .quotedIdentifier)
      [.switch .expression],
    visible "CLOSING_METRICS_UNQUOTED_IDENTIFIER" .unquotedIdentifier (.naming .unquotedIdentifier)
      [.switch .expression],
    word "CLOSING_METRICS_BY" "by" (.clause .by_) [.switch .expression],
    sign "CLOSING_METRICS_PIPE" "|" (.punctuation .pipe) [.pop]]

def show_ : List Rule :=
  [sign "SHOW_PIPE" "|" (.punctuation .pipe) [.pop],
    word "INFO" "info" (.clause .info) []] ++
  triviaOf .show_

def meta_ : List Rule :=
  [sign "META_PIPE" "|" (.punctuation .pipe) [.pop],
    word "FUNCTIONS" "functions" (.clause .functions) []] ++
  triviaOf .meta_

/-! ## Field Lists -/

def project : List Rule :=
  [sign "PROJECT_PIPE" "|" (.punctuation .pipe) [.pop],
    sign "PROJECT_DOT" "." (.punctuation .dot) [],
    sign "PROJECT_COMMA" "," (.punctuation .comma) [],
    visible "ID_PATTERN" .idPattern (.naming .idPattern) []] ++
  triviaOf .project

def rename : List Rule :=
  [sign "RENAME_PIPE" "|" (.punctuation .pipe) [.pop],
    sign "RENAME_ASSIGN" "=" .assign [],
    sign "RENAME_COMMA" "," (.punctuation .comma) [],
    sign "RENAME_DOT" "." (.punctuation .dot) [],
    word "AS" "as" (.clause .as_) [],
    visible "RENAME_ID_PATTERN" .idPattern (.naming .idPattern) []] ++
  triviaOf .rename

def mvExpand : List Rule :=
  [sign "MVEXPAND_PIPE" "|" (.punctuation .pipe) [.pop],
    sign "MVEXPAND_DOT" "." (.punctuation .dot) [],
    visible "MVEXPAND_QUOTED_IDENTIFIER" .quotedIdentifier (.naming .quotedIdentifier) [],
    visible "MVEXPAND_UNQUOTED_IDENTIFIER" .unquotedIdentifier (.naming .unquotedIdentifier) []] ++
  triviaOf .mvExpand

/-! ## Enrichment and Lookup -/

/-- The second policy rule never wins, since the first accepts the same texts. -/
def enrich : List Rule :=
  [sign "ENRICH_PIPE" "|" (.punctuation .pipe) [.pop],
    sign "ENRICH_OPENING_BRACKET" "[" (.punctuation .openingBracket) [.push .setting],
    word "ON" "on" (.clause .on_) [.push .enrichField],
    word "WITH" "with" (.clause .with_) [.push .enrichField],
    visible "ENRICH_POLICY_NAME" .policyName (.naming .policyName) [],
    visible "ENRICH_MODE_UNQUOTED_VALUE" .policyName (.naming .policyName) []] ++
  triviaOf .enrich

def enrichField : List Rule :=
  [sign "ENRICH_FIELD_PIPE" "|" (.punctuation .pipe) [.pop, .pop],
    sign "ENRICH_FIELD_ASSIGN" "=" .assign [],
    sign "ENRICH_FIELD_COMMA" "," (.punctuation .comma) [],
    sign "ENRICH_FIELD_DOT" "." (.punctuation .dot) [],
    word "ENRICH_FIELD_WITH" "with" (.clause .with_) [],
    visible "ENRICH_FIELD_ID_PATTERN" .idPattern (.naming .idPattern) [],
    visible "ENRICH_FIELD_QUOTED_IDENTIFIER" .quotedIdentifier (.naming .quotedIdentifier) []] ++
  triviaOf .enrichField

def setting : List Rule :=
  [sign "SETTING_CLOSING_BRACKET" "]" (.punctuation .closingBracket) [.pop],
    sign "COLON" ":" (.punctuation .colon) [],
    visible "SETTING" .setting (.naming .setting) []] ++
  triviaOf .setting

def lookup : List Rule :=
  [sign "LOOKUP_PIPE" "|" (.punctuation .pipe) [.pop],
    sign "LOOKUP_COLON" ":" (.punctuation .colon) [],
    sign "LOOKUP_COMMA" "," (.punctuation .comma) [],
    sign "LOOKUP_DOT" "." (.punctuation .dot) [],
    word "LOOKUP_ON" "on" (.clause .on_) [.push .lookupField],
    visible "LOOKUP_UNQUOTED_SOURCE" .unquotedSource (.naming .unquotedSource) [],
    visible "LOOKUP_QUOTED_SOURCE" .quotedString (.literal .quotedString) []] ++
  triviaOf .lookup

def lookupField : List Rule :=
  [sign "LOOKUP_FIELD_PIPE" "|" (.punctuation .pipe) [.pop, .pop],
    sign "LOOKUP_FIELD_COMMA" "," (.punctuation .comma) [],
    sign "LOOKUP_FIELD_DOT" "." (.punctuation .dot) [],
    visible "LOOKUP_FIELD_ID_PATTERN" .idPattern (.naming .idPattern) []] ++
  triviaOf .lookupField

end RuleTable

/-- The rules of a mode. -/
def Mode.rules : Mode → List Rule
  | .default => RuleTable.default
  | .explain => RuleTable.explain
  | .expression => RuleTable.expression
  | .from_ => RuleTable.from_
  | .project => RuleTable.project
  | .rename => RuleTable.rename
  | .enrich => RuleTable.enrich
  | .enrichField => RuleTable.enrichField
  | .lookup => RuleTable.lookup
  | .lookupField => RuleTable.lookupField
  | .mvExpand => RuleTable.mvExpand
  | .show_ => RuleTable.show_
  | .meta_ => RuleTable.meta_
  | .setting => RuleTable.setting
  | .metrics => RuleTable.metrics
  | .closingMetrics => RuleTable.closingMetrics

end PipeQuery
