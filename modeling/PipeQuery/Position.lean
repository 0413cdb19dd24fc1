-- SUMMARY: Positions in a query text: byte offset, line and column, and how they move over characters.
import PipeQuery.Text.Size

/-! # Positions

Offsets count UTF-8 bytes from 0. Lines and columns count from 1, and a column
is one character wide whatever the character's size. -/

namespace PipeQuery

structure Position where
  offset : Nat
  line : Nat
  column : Nat
  deriving DecidableEq, Repr

namespace Position

def start : Position := ⟨0, 1, 1⟩

/-! ## Range -/

def maxOffset : Nat := UInt64.size - 1

/-- The largest line and the largest column. -/
def maxLine : Nat := UInt32.size - 1

/-- Whether the numbers of a position have the width that programs exchange. -/
def InRange (p : Position) : Prop :=
  p.offset ≤ maxOffset ∧ p.line ≤ maxLine ∧ p.column ≤ maxLine

instance (p : Position) : Decidable p.InRange :=
  inferInstanceAs (Decidable (_ ∧ _ ∧ _))

/-! ## Moving -/

/-- The place after one more character. Only a line feed starts a line: a
carriage return or a tab is one column wide like any other character. -/
def advance (p : Position) (c : Char) : Position :=
  if c = '\n' then ⟨p.offset + 1, p.line + 1, 1⟩
  else ⟨p.offset + c.utf8Size, p.line, p.column + 1⟩

/-- The place after a whole text. -/
def advanceOver (p : Position) (cs : List Char) : Position :=
  cs.foldl advance p

@[simp] theorem advanceOver_nil (p : Position) : p.advanceOver [] = p := rfl

@[simp] theorem advanceOver_cons (p : Position) (c : Char) (cs : List Char) :
    p.advanceOver (c :: cs) = (p.advance c).advanceOver cs := rfl

theorem advanceOver_append (p : Position) (cs ds : List Char) :
    p.advanceOver (cs ++ ds) = (p.advanceOver cs).advanceOver ds := by
  simp [advanceOver, List.foldl_append]

@[simp] theorem advance_offset (p : Position) (c : Char) :
    (p.advance c).offset = p.offset + c.utf8Size := by
  by_cases h : c = '\n'
  · subst h
    rfl
  · simp [advance, h]

@[simp] theorem advanceOver_offset (p : Position) (cs : List Char) :
    (p.advanceOver cs).offset = p.offset + Text.size cs := by
  induction cs generalizing p with
  | nil => simp
  | cons c cs ih => simp [ih, Nat.add_assoc]

/-! ## Order -/

/-- Offset first, then line, then column. -/
def isBefore (p q : Position) : Bool :=
  p.offset < q.offset ||
    (p.offset == q.offset && (p.line < q.line || (p.line == q.line && p.column < q.column)))

/-- The earlier of two places, the first if they are equal. -/
def earliest (p q : Position) : Position :=
  if q.isBefore p then q else p

/-- The later of two places. -/
def latest (p q : Position) : Position :=
  if p.isBefore q then q else p

/-! ## Text -/

/-- Line and column, as messages name a place. -/
def render (p : Position) : String :=
  s!"{p.line}:{p.column}"

end Position

end PipeQuery
