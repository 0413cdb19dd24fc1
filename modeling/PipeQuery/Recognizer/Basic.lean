-- SUMMARY: The patterns behind the lexer rules, the character classes they are made of, and their descriptions.
import PipeQuery.Text.Quoted

/-! # Recognizers

A recognizer is a pattern over texts. Character classes are ASCII: the classes
that list characters hold ASCII characters only, and those that exclude some
accept every other character of any script. -/

namespace PipeQuery

/-- A pattern of a lexer rule. -/
inductive Recognizer where
  /-- Exactly this text. -/
  | literal (text : List Char)
  /-- This word, its ASCII letters in either case. -/
  | keyword (word : List Char)
  /-- Two slashes and the rest of the line. -/
  | lineComment
  /-- A slash and a star up to the matching star and slash. -/
  | blockComment
  | whitespace
  /-- A run of anything but blanks, square brackets and slashes. -/
  | unknownCommand
  /-- An index pattern such as `logs-*` or `idx/2024`. -/
  | unquotedSource
  /-- A text between quotes with escapes, or between tripled quotes on one line. -/
  | quotedString
  | integer
  | decimal
  /-- A question mark with a name or a number. -/
  | parameter
  | unquotedIdentifier
  /-- A name between backquotes, where two backquotes stand for one. -/
  | quotedIdentifier
  /-- A field name with wildcards and quoted parts. -/
  | idPattern
  /-- A policy name, if need be with a qualifier before a colon. -/
  | policyName
  /-- A name or value inside square brackets. -/
  | setting
  deriving DecidableEq, Repr

namespace Recognizer

/-- The recognizers that carry no text of their own. -/
def plain : List Recognizer :=
  [.lineComment, .blockComment, .whitespace, .unknownCommand, .unquotedSource, .quotedString,
    .integer, .decimal, .parameter, .unquotedIdentifier, .quotedIdentifier, .idPattern,
    .policyName, .setting]

/-- How the rule tables show a recognizer. -/
def describe : Recognizer → String
  | .literal text => "Literal(" ++ Text.quoted (String.ofList text) ++ ")"
  | .keyword word => "Keyword(" ++ Text.quoted (String.ofList word) ++ ")"
  | .lineComment => "LineComment"
  | .blockComment => "MultilineComment"
  | .whitespace => "Whitespace"
  | .unknownCommand => "UnknownCommand"
  | .unquotedSource => "UnquotedSource"
  | .quotedString => "QuotedString"
  | .integer => "IntegerLiteral"
  | .decimal => "DecimalLiteral"
  | .parameter => "NamedOrPositionalParam"
  | .unquotedIdentifier => "UnquotedIdentifier"
  | .quotedIdentifier => "QuotedIdentifier"
  | .idPattern => "IdPattern"
  | .policyName => "EnrichPolicyName"
  | .setting => "Setting"

end Recognizer

/-! ## Character Classes -/

namespace CharClass

/-- Space, tab, carriage return and line feed. -/
def isBlank (c : Char) : Bool :=
  c == ' ' || c == '\t' || c == '\r' || c == '\n'

/-- The two characters that end a line. -/
def isLineEnd (c : Char) : Bool :=
  c == '\r' || c == '\n'

/-- What a name goes on with. -/
def isWord (c : Char) : Bool :=
  c.isAlpha || c.isDigit || c == '_'

/-- What a field pattern goes on with. -/
def isWildcardWord (c : Char) : Bool :=
  isWord c || c == '*'

/-- What an unknown command is made of. -/
def isCommandWord (c : Char) : Bool :=
  !(isBlank c || c == '[' || c == ']' || c == '/')

/-- What an index pattern is made of, apart from single slashes. -/
def isSource (c : Char) : Bool :=
  !(isBlank c || c == ':' || c == '"' || c == '=' || c == '|' || c == ',' || c == '[' ||
    c == ']' || c == '/')

/-- What a policy name is made of. -/
def isPolicy (c : Char) : Bool :=
  !(isBlank c || c == '\\' || c == '/' || c == '?' || c == '"' || c == '<' || c == '>' ||
    c == '|' || c == ',' || c == '#' || c == ':')

/-- What a setting is made of. -/
def isSetting (c : Char) : Bool :=
  c == '@' || c == '.' || c == '_' || c.isAlpha || c.isDigit

/-- Letters that are equal when case does not matter. -/
def sameLetter (c d : Char) : Bool :=
  c.toLower == d.toLower

end CharClass

end PipeQuery
