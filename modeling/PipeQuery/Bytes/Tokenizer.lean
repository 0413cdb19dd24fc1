-- SUMMARY: The next token of a run, chosen and cut by byte counts, with every slice checked.
import PipeQuery.Bytes.Reach
import PipeQuery.Tokenizer

/-! # Tokens in Bytes

Rules are compared by the bytes that they take. A match that ends inside a character is dropped as
if no rule matched; an unknown token whose end lies inside a character is widened to its end. -/

namespace PipeQuery

/-! ## Longest Matches -/

/-- Keeps the better of a candidate and the next rule, as `Rule.better` does. -/
def Rule.betterBytes (bs : Bytes) (best : Option (Rule × Nat)) (rule : Rule) :
    Checked (Option (Rule × Nat)) := do
  let n ← rule.recognizer.matchBytes bs
  return if 0 < n ∧ ∀ choice ∈ best, choice.2 < n then some (rule, n) else best

/-- The rule with the longest match and the bytes that it takes. -/
def longestMatchBytes (rules : List Rule) (bs : Bytes) : Checked (Option (Rule × Nat)) :=
  rules.foldlM (Rule.betterBytes bs) none

namespace Tokenizer

/-! ## Unknown Text -/

/-- How many bytes some rule could still have completed. -/
def attemptedBytes (rules : List Rule) (bs : Bytes) : Checked Nat :=
  rules.foldlM (fun n rule => return max n (← rule.recognizer.reachBytes bs)) 0

/-- Goes on to the next boundary, one byte after the other. -/
def ceilBoundary (cs : List Char) (offset : Nat) : Nat :=
  if _ : Text.isBoundary cs offset = false ∧ offset < Text.size cs then
    ceilBoundary cs (offset + 1)
  else offset
termination_by Text.size cs - offset

/-- The bytes of an unknown token: up to the end of the attempt, and the character behind it. -/
def unknownBytes (rules : List Rule) (cs : List Char) : Checked Nat := do
  let attempted ← attemptedBytes rules (Text.bytes cs)
  let width := ceilBoundary cs (min attempted (Text.size cs))
  match Text.after? width cs with
  | some rest => return width + rest.head?.elim 0 Char.utf8Size
  | none => throw ⟨width, Text.size cs⟩

/-! ## Tokens -/

/-- A token of the next characters, and the run behind it. -/
def emit (t : Tokenizer) (kind : TokenKind) (channel : Channel) (text : List Char) :
    Token × Tokenizer :=
  let stop := t.position.advanceOver text
  ({ kind, text := String.ofList text, span := ⟨t.position, stop⟩, channel },
    { t with rest := t.rest.drop text.length, position := stop })

/-- The next token and the run behind it. -/
def nextBytes (t : Tokenizer) : Checked (Token × Tokenizer) := do
  if t.rest = [] then
    return (.eof t.position, { t with finished := true })
  else
    let best ← longestMatchBytes t.mode.rules (Text.bytes t.rest)
    match best.bind fun (rule, n) => (Text.slice? 0 n t.rest).map (rule, ·) with
    | some (rule, text) =>
      let (token, u) := t.emit rule.kind rule.channel text
      return (token, { u with modes := u.modes.applyAll rule.actions })
    | none =>
      let width ← unknownBytes t.mode.rules t.rest
      match Text.slice? 0 width t.rest with
      | some text => return t.emit .unknown .default text
      | none => throw ⟨width, Text.size t.rest⟩

end Tokenizer

end PipeQuery
