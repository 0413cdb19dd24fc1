-- SUMMARY: Where block comments end, computed for every place in a comment body at once.

/-! # Block Comments

The body of a block comment ends at the first star and slash. Where a slash and
a star open another comment inside, that comment is skipped as a whole if it is
closed and if the outer body still ends after it; otherwise the two characters
are plain text. Whether a place is an end depends only on what follows it, so
the answers for all places are filled in from the right. -/

namespace PipeQuery.Comment

/-- The answers for the endings of a text, shortest first: entry `k` belongs to
the ending of `k` characters, and says how many characters remain after a body
that begins there. -/
abbrev Ends := Array (Option Nat)

/-- The answer for one more character, where the character after it is `next`. -/
def endWith (c : Char) (next : Option Char) (ends : Ends) : Option Nat :=
  if c = '*' ∧ next = some '/' then some (ends.size - 2)
  else if c = '/' ∧ next = some '*' then
    let inner := ends[ends.size - 2]?.join
    (inner.bind fun k => ends[k]?.join).or ends.back?.join
  else ends.back?.join

/-- The answers for all endings of a text. -/
def ends (cs : List Char) : Ends :=
  (cs.foldr (fun c (next, ends) => (some c, ends.push (endWith c next ends))) (none, #[none])).2

/-- How many characters the body takes that begins a text, if it ends at all. -/
def bodyLength? (cs : List Char) : Option Nat :=
  (ends cs).back?.join.map (cs.length - ·)

end PipeQuery.Comment
