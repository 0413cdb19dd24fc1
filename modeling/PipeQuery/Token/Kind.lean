-- SUMMARY: The closed vocabulary of token kinds, with numeric ids, symbolic and literal names, and classes.
import PipeQuery.Mode.Basic
import PipeQuery.Token.Word

/-! # Token Kinds

A kind is a member of a family: command words, clause words, operators,
punctuation, literals, names of things, parameters, and the trivia each mode has
of its own. Ids and names agree with the query grammar's vocabulary, so that a
parser built on that vocabulary can read the tokens. -/

namespace PipeQuery

/-! ## Families -/

inductive LiteralKind where
  | quotedString
  | integer
  | decimal
  deriving DecidableEq, Repr

/-- A name of a field, a source, a policy or a setting. -/
inductive NameKind where
  | unquotedIdentifier
  | quotedIdentifier
  | idPattern
  | unquotedSource
  | policyName
  | setting
  deriving DecidableEq, Repr

/-- What a parser does not see. -/
inductive Trivia where
  | lineComment
  | blockComment
  | whitespace
  deriving DecidableEq, Repr

/-- What a token is. -/
inductive TokenKind where
  | eof
  /-- Input that no rule of the mode accepts. -/
  | unknown
  /-- Any other word in command position. -/
  | unknownCommand
  | command (word : Command)
  | clause (word : Clause)
  | comparison (op : Comparison)
  | arithmetic (op : Arithmetic)
  | assign
  | castOp
  | punctuation (mark : Punctuation)
  | literal (kind : LiteralKind)
  | naming (kind : NameKind)
  | param
  | namedParam
  | trivia (mode : Mode) (kind : Trivia)
  deriving DecidableEq, Repr

/-! ## Names -/

def LiteralKind.name : LiteralKind → String
  | .quotedString => "QUOTED_STRING"
  | .integer => "INTEGER_LITERAL"
  | .decimal => "DECIMAL_LITERAL"

def NameKind.name : NameKind → String
  | .unquotedIdentifier => "UNQUOTED_IDENTIFIER"
  | .quotedIdentifier => "QUOTED_IDENTIFIER"
  | .idPattern => "ID_PATTERN"
  | .unquotedSource => "UNQUOTED_SOURCE"
  | .policyName => "ENRICH_POLICY_NAME"
  | .setting => "SETTING"

/-- What the names of a mode's trivia begin with. -/
def Mode.triviaStem : Mode → String
  | .default => ""
  | .explain => "EXPLAIN_"
  | .expression => "EXPR_"
  | .from_ => "FROM_"
  | .project => "PROJECT_"
  | .rename => "RENAME_"
  | .enrich => "ENRICH_"
  | .enrichField => "ENRICH_FIELD_"
  | .lookup => "LOOKUP_"
  | .lookupField => "LOOKUP_FIELD_"
  | .mvExpand => "MVEXPAND_"
  | .show_ => "SHOW_"
  | .meta_ => "META_"
  | .setting => "SETTING_"
  | .metrics => "METRICS_"
  | .closingMetrics => "CLOSING_METRICS_"

/-- What the name of a trivia kind ends with. -/
def Trivia.name : Trivia → String
  | .lineComment => "LINE_COMMENT"
  | .blockComment => "MULTILINE_COMMENT"
  | .whitespace => "WS"

namespace TokenKind

/-- The symbolic name. The block comment of the setting mode keeps the spelling
that the vocabulary has always had. -/
def name : TokenKind → String
  | .eof => "EOF"
  | .unknown => "UNKNOWN"
  | .unknownCommand => "UNKNOWN_CMD"
  | .command c => c.name
  | .clause w => w.name
  | .comparison o => o.name
  | .arithmetic o => o.name
  | .assign => "ASSIGN"
  | .castOp => "CAST_OP"
  | .punctuation p => p.name
  | .literal l => l.name
  | .naming n => n.name
  | .param => "PARAM"
  | .namedParam => "NAMED_OR_POSITIONAL_PARAM"
  | .trivia .setting .blockComment => "SETTTING_MULTILINE_COMMENT"
  | .trivia m t => m.triviaStem ++ t.name

/-- The one spelling of the kind between apostrophes, where the vocabulary lists it. -/
def literalName? : TokenKind → Option String
  | .command c => c.literalName?
  | .clause w => w.literalName?
  | .comparison o => some o.literalName
  | .arithmetic o => some o.literalName
  | .assign => some "'='"
  | .castOp => some "'::'"
  | .punctuation p => p.literalName?
  | .param => some "'?'"
  | _ => none

/-- The literal name, or else the symbolic one. -/
def displayName (k : TokenKind) : String :=
  k.literalName?.getD k.name

/-! ## Ids -/

/-- The trivia of a mode, in the order that most modes have. -/
def triviaOf (m : Mode) : List TokenKind :=
  [.trivia m .lineComment, .trivia m .blockComment, .trivia m .whitespace]

/-- Every kind, in id order. -/
def all : List TokenKind :=
  List.flatten
    [[.eof, .unknown], Command.all.map .command, [.unknownCommand],
      triviaOf .default,
      [.naming .unquotedSource],
      [.trivia .explain .whitespace, .trivia .explain .lineComment, .trivia .explain .blockComment],
      [.punctuation .pipe, .literal .quotedString, .literal .integer, .literal .decimal,
        .clause .by_, .clause .and_, .clause .asc, .assign, .castOp, .punctuation .comma,
        .clause .desc, .punctuation .dot, .clause .false_, .clause .first, .clause .in_,
        .clause .is_, .clause .last, .clause .like, .punctuation .lp, .clause .matchOperator,
        .clause .not_, .clause .null, .clause .nulls, .clause .or_, .param, .clause .rlike,
        .punctuation .rp, .clause .true_, .comparison .eq, .comparison .cieq, .comparison .neq,
        .comparison .lt, .comparison .lte, .comparison .gt, .comparison .gte, .arithmetic .plus,
        .arithmetic .minus, .arithmetic .asterisk, .arithmetic .slash, .arithmetic .percent,
        .namedParam, .punctuation .openingBracket, .punctuation .closingBracket,
        .naming .unquotedIdentifier, .naming .quotedIdentifier],
      triviaOf .expression,
      [.clause .metadata], triviaOf .from_,
      [.naming .idPattern], triviaOf .project,
      [.clause .as_], triviaOf .rename,
      [.clause .on_, .clause .with_, .naming .policyName], triviaOf .enrich,
      triviaOf .enrichField, triviaOf .lookup, triviaOf .lookupField, triviaOf .mvExpand,
      [.clause .info], triviaOf .show_,
      [.clause .functions], triviaOf .meta_,
      [.punctuation .colon, .naming .setting], triviaOf .setting,
      triviaOf .metrics, triviaOf .closingMetrics]

/-- The place of a kind in id order. -/
def index (k : TokenKind) : Nat := all.idxOf k

/-- The numeric type of a kind. Ids begin at -1. -/
def typeId (k : TokenKind) : Int := (k.index : Int) - 1

/-- The kind of a numeric type. -/
def ofTypeId? (id : Int) : Option TokenKind :=
  if id < -1 then none else all[(id + 1).toNat]?

def ofName? (name : String) : Option TokenKind :=
  all.find? (·.name == name)

/-! ## Predicates -/

def isCommandKeyword : TokenKind → Bool
  | .command _ => true
  | _ => false

def isKeyword : TokenKind → Bool
  | .command _ | .clause _ => true
  | _ => false

def isComparison : TokenKind → Bool
  | .comparison _ => true
  | _ => false

def isArithmetic : TokenKind → Bool
  | .arithmetic _ => true
  | _ => false

def isOperator : TokenKind → Bool
  | .comparison _ | .arithmetic _ | .assign | .castOp => true
  | _ => false

def isPunctuation : TokenKind → Bool
  | .punctuation _ => true
  | _ => false

def isLiteral : TokenKind → Bool
  | .literal _ => true
  | _ => false

def isIdentifier : TokenKind → Bool
  | .naming _ => true
  | _ => false

def isParameter : TokenKind → Bool
  | .param | .namedParam => true
  | _ => false

def isLineComment : TokenKind → Bool
  | .trivia _ .lineComment => true
  | _ => false

def isBlockComment : TokenKind → Bool
  | .trivia _ .blockComment => true
  | _ => false

def isComment (k : TokenKind) : Bool :=
  k.isLineComment || k.isBlockComment

def isWhitespace : TokenKind → Bool
  | .trivia _ .whitespace => true
  | _ => false

/-- Whether the lexer keeps the kind from parsers. -/
def isHiddenByDefault (k : TokenKind) : Bool :=
  k.isComment || k.isWhitespace

end TokenKind

/-! ## Classes -/

/-- What a kind counts as. -/
inductive TokenClass where
  | keyword
  | operator
  | punctuation
  | literal
  | identifier
  | parameter
  | comment
  | whitespace
  /-- The end of input, unknown input and unknown commands. -/
  | special
  deriving DecidableEq, Repr

/-- The label of a class. -/
def TokenClass.label : TokenClass → String
  | .keyword => "Keyword"
  | .operator => "Operator"
  | .punctuation => "Punctuation"
  | .literal => "Literal"
  | .identifier => "Identifier"
  | .parameter => "Parameter"
  | .comment => "Comment"
  | .whitespace => "Whitespace"
  | .special => "Special"

/-- The class of a kind. -/
def TokenKind.tokenClass : TokenKind → TokenClass
  | .eof | .unknown | .unknownCommand => .special
  | .command _ | .clause _ => .keyword
  | .comparison _ | .arithmetic _ | .assign | .castOp => .operator
  | .punctuation _ => .punctuation
  | .literal _ => .literal
  | .naming _ => .identifier
  | .param | .namedParam => .parameter
  | .trivia _ .whitespace => .whitespace
  | .trivia _ _ => .comment

end PipeQuery
