-- SUMMARY: How many tokens of each class a list of tokens holds.
import PipeQuery.Token.Basic

/-! # Token Counts -/

namespace PipeQuery

/-- Tokens by class. The end of input is not counted. -/
structure TokenCounts where
  total : Nat
  keywords : Nat
  identifiers : Nat
  literals : Nat
  operators : Nat
  punctuation : Nat
  parameters : Nat
  comments : Nat
  whitespace : Nat
  unknown : Nat
  deriving DecidableEq, Repr

namespace TokenCounts

def zero : TokenCounts where
  total := 0
  keywords := 0
  identifiers := 0
  literals := 0
  operators := 0
  punctuation := 0
  parameters := 0
  comments := 0
  whitespace := 0
  unknown := 0

def countClass (c : TokenCounts) : TokenClass → TokenCounts
  | .keyword => { c with keywords := c.keywords + 1 }
  | .identifier => { c with identifiers := c.identifiers + 1 }
  | .literal => { c with literals := c.literals + 1 }
  | .operator => { c with operators := c.operators + 1 }
  | .punctuation => { c with punctuation := c.punctuation + 1 }
  | .parameter => { c with parameters := c.parameters + 1 }
  | .comment => { c with comments := c.comments + 1 }
  | .whitespace => { c with whitespace := c.whitespace + 1 }
  | .special => c

/-- Counts a token, by its class unless it is unknown input. -/
def count (c : TokenCounts) (t : Token) : TokenCounts :=
  let c := { c with total := c.total + 1 }
  if t.isUnknown then { c with unknown := c.unknown + 1 }
  else c.countClass t.kind.tokenClass

def ofTokens (tokens : List Token) : TokenCounts :=
  (tokens.filter (!·.isEof)).foldl count .zero

def significant (c : TokenCounts) : Nat := c.total - c.whitespace - c.comments

/-- Whether there is anything besides whitespace and comments. -/
def hasContent (c : TokenCounts) : Bool := 0 < c.significant

/-- Whether there are fewer tokens than a limit. -/
def isWithin (c : TokenCounts) (maxTokenCount : Nat) : Bool := c.total < maxTokenCount

end TokenCounts

end PipeQuery
