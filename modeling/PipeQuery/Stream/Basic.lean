-- SUMMARY: Token streams: a cursor over the significant tokens, with the hidden tokens kept beside them.
import PipeQuery.Log.Code
import PipeQuery.SourceMap
import PipeQuery.Token.Basic

/-! # Token Streams

A stream keeps every token, so that the text can be rebuilt from it, while its
cursor only stops at the tokens that parsers see. Where these stand is counted
once, when the stream is made. -/

namespace PipeQuery

/-- Where the tokens that parsers see stand in a list of tokens. -/
def significantPlaces (tokens : List Token) : List Nat :=
  (tokens.zipIdx.filter (·.1.isSignificant)).map (·.2)

/-- A buffered list of tokens with a cursor. -/
structure TokenStream where
  /-- All tokens in order, hidden ones included. -/
  all : Array Token
  /-- Where the tokens that parsers see stand among all tokens. -/
  places : Array Nat
  /-- How many of these places are behind the cursor. -/
  cursor : Nat
  source? : Option SourceMap
  places_eq : places.toList = significantPlaces all.toList

/-- Why a parser did not get the token it expected. -/
inductive StreamError where
  | unexpectedToken (expected found : TokenKind) (span : Span)
  | unexpectedEnd (expected : TokenKind)
  deriving DecidableEq, Repr

namespace StreamError

def message : StreamError → String
  | .unexpectedToken expected found span =>
    s!"Expected {expected.displayName}, found {found.displayName} at {span.render}"
  | .unexpectedEnd expected => s!"Expected {expected.displayName}, but reached end of input"

def code : StreamError → Code
  | .unexpectedToken .. => .unexpectedToken
  | .unexpectedEnd _ => .unexpectedEndOfStream

end StreamError

/-- Why a place in a stream has no number. -/
inductive PlaceError where
  /-- The number does not fit in a machine word. -/
  | overflow
  deriving DecidableEq, Repr

def PlaceError.message : PlaceError → String
  | .overflow => "attempt to add with overflow"

namespace TokenStream

/-- The stream of a list of tokens. With a source map its messages quote the
text. -/
def ofTokens (tokens : List Token) (source? : Option SourceMap) : TokenStream where
  all := tokens.toArray
  places := (significantPlaces tokens).toArray
  cursor := 0
  source? := source?
  places_eq := rfl

def tokens (s : TokenStream) : List Token := s.all.toList

@[simp] theorem tokens_ofTokens (tokens : List Token) (source? : Option SourceMap) :
    (ofTokens tokens source?).tokens = tokens := rfl

/-! ## Navigation -/

/-- How many significant tokens there are, the end of input included. -/
def size (s : TokenStream) : Nat := s.places.size

def isEmpty (s : TokenStream) : Bool := s.places.isEmpty

/-- The significant token `n` places after the current one. -/
def peekAhead? (s : TokenStream) (n : Nat) : Option Token := do
  let place ← s.places[s.cursor + n]?
  s.all[place]?

/-- Looks for the significant token `n` places after the current one. Places are numbered
in machine words, and one whose number does not fit is refused. -/
def lookAhead (s : TokenStream) (n : Nat) : Except PlaceError (Option Token) :=
  if s.cursor + n < UInt64.size then .ok (s.peekAhead? n) else .error .overflow

def current? (s : TokenStream) : Option Token := s.peekAhead? 0

/-- The significant token after the current one. -/
def peek? (s : TokenStream) : Option Token := s.peekAhead? 1

/-- Whether the cursor has passed every significant token. -/
def isAtEnd (s : TokenStream) : Bool := s.size ≤ s.cursor

/-- Passes the current token, if there is one. -/
def advance (s : TokenStream) : TokenStream :=
  if s.cursor < s.size then { s with cursor := s.cursor + 1 } else s

/-- Passes the current token if it has the kind, and tells whether it had. -/
def advanceIf (s : TokenStream) (kind : TokenKind) : Bool × TokenStream :=
  match s.current? with
  | some t => if t.kind = kind then (true, s.advance) else (false, s)
  | none => (false, s)

/-- Passes and returns the current token if it has the kind. -/
def expect (s : TokenStream) (kind : TokenKind) : Except StreamError Token × TokenStream :=
  match s.current? with
  | some t =>
    if t.kind = kind then (.ok t, s.advance)
    else (.error (.unexpectedToken kind t.kind t.span), s)
  | none => (.error (.unexpectedEnd kind), s)

/-- Moves the cursor to a saved place, at most to the end. -/
def restore (s : TokenStream) (saved : Nat) : TokenStream :=
  { s with cursor := min saved s.size }

/-! ## View

The stream is a cursor on the list of its significant tokens: a place that was
counted is the place of such a token, and the places are in order. -/

/-- Looking up the places gives the significant tokens. -/
theorem map_getElem?_significantPlaces (tokens : List Token) :
    (significantPlaces tokens).map (tokens[·]?) = (tokens.filter Token.isSignificant).map some := by
  have hfound : (tokens.zipIdx.filter (·.1.isSignificant)).map (tokens[·.2]?) =
      (tokens.zipIdx.filter (·.1.isSignificant)).map (some ·.1) :=
    List.map_congr_left fun _ hentry =>
      List.mk_mem_zipIdx_iff_getElem?.1 (List.mem_filter.1 hentry).1
  have hfirst : (tokens.zipIdx.filter (·.1.isSignificant)).map (·.1) =
      tokens.filter Token.isSignificant := by
    have h := List.filter_map (f := Prod.fst) (p := Token.isSignificant) (l := tokens.zipIdx)
    rw [List.zipIdx_map_fst] at h
    exact h.symm
  rw [significantPlaces, List.map_map, ← hfirst, List.map_map]
  exact hfound

@[simp] theorem length_significantPlaces (tokens : List Token) :
    (significantPlaces tokens).length = (tokens.filter Token.isSignificant).length := by
  simpa using congrArg List.length (map_getElem?_significantPlaces tokens)

theorem size_eq (s : TokenStream) : s.size = (s.tokens.filter Token.isSignificant).length := by
  rw [size, ← Array.length_toList, s.places_eq, length_significantPlaces]
  rfl

/-- Looking up a place and then the token that stands there finds the significant token
with that number. -/
theorem getElem?_places_bind (s : TokenStream) (i : Nat) :
    (s.places[i]?.bind fun place => s.all[place]?) =
      (s.tokens.filter Token.isSignificant)[i]? := by
  have h := congrArg (·[i]?.bind id) (map_getElem?_significantPlaces s.all.toList)
  simpa [← s.places_eq, Option.bind_map, Function.comp_def, tokens] using h

theorem peekAhead?_eq (s : TokenStream) (n : Nat) :
    s.peekAhead? n = (s.tokens.filter Token.isSignificant)[s.cursor + n]? :=
  s.getElem?_places_bind (s.cursor + n)

/-- No place leads beyond the last token. -/
theorem lt_size_of_mem_places (s : TokenStream) {place : Nat} (h : place ∈ s.places) :
    place < s.all.size := by
  have hplace : place ∈ significantPlaces s.all.toList := by
    rwa [← s.places_eq, Array.mem_toList_iff]
  obtain ⟨entry, hentry, rfl⟩ := List.mem_map.1 hplace
  have hfound := List.mk_mem_zipIdx_iff_getElem?.1 (List.mem_filter.1 hentry).1
  exact (List.getElem?_eq_some_iff.1 hfound).1

/-! ## Trivia -/

/-- The tokens that parsers see. -/
def significant (s : TokenStream) : Array Token :=
  s.places.attach.map fun ⟨place, h⟩ =>
    have := s.lt_size_of_mem_places h
    s.all[place]

def hidden (s : TokenStream) : List Token := s.tokens.filter Token.isHidden

def unknown (s : TokenStream) : List Token := s.tokens.filter Token.isUnknown

/-- Where the tokens behind the significant token in front of another one begin. -/
def startBefore (s : TokenStream) (index : Nat) (h : index < s.places.size) : Nat :=
  if index = 0 then 0 else s.places[index - 1] + 1

/-- The hidden tokens directly in front of the significant token with an index. -/
def hiddenBefore (s : TokenStream) (index : Nat) : List Token :=
  if h : index < s.places.size then
    (s.all.extract (s.startBefore index h) s.places[index]).toList
  else []

/-- The texts of all tokens, one after the other. -/
def reconstruct (s : TokenStream) : String :=
  String.join (s.tokens.map (·.text))

/-- Whether the last significant token is the end of input. -/
def hasEof (s : TokenStream) : Bool :=
  ((s.places.back?.bind fun place => s.all[place]?).map Token.isEof).getD false

/-! ## Messages -/

/-- A message about a span, with the source line if the stream has a source map. -/
def formatError (s : TokenStream) (span : Span) (message : String) : String :=
  match s.source? with
  | some m => m.formatError span message
  | none => s!"Error at {span.render}: {message}"

/-- Where the cursor stands. -/
def diagnostic (s : TokenStream) : String :=
  let current :=
    match s.current? with
    | some t => s!"{t.kind.name} at {t.span.render}"
    | none => "<end>"
  s!"TokenStream(pos: {s.cursor}/{s.size}, current: {current})"

end TokenStream

end PipeQuery
