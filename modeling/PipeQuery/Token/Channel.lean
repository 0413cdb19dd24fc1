-- SUMMARY: The two channels of tokens: what parsers see, and trivia.

/-! # Channels -/

namespace PipeQuery

/-- Where a token goes. -/
inductive Channel where
  /-- To parsers. -/
  | default
  /-- To nobody: whitespace and comments. -/
  | hidden
  deriving DecidableEq, Repr

namespace Channel

def all : List Channel := [.default, .hidden]

def number : Channel → Nat
  | .default => 0
  | .hidden => 1

def name : Channel → String
  | .default => "DEFAULT_TOKEN_CHANNEL"
  | .hidden => "HIDDEN"

/-- The label of a channel in token records. -/
def label : Channel → String
  | .default => "Default"
  | .hidden => "Hidden"

/-- The channel of a label. -/
def ofLabel? (label : String) : Option Channel :=
  all.find? (·.label == label)

end Channel

end PipeQuery
