-- SUMMARY: Byte sizes of character lists: how many bytes a text takes, how much of it fits in a budget, and slices between byte offsets.

/-! # Text Sizes

Texts are scanned as character lists, while offsets and limits count UTF-8
bytes. A byte count is therefore a measure on a text, and a byte offset names a
place in it only if some whole number of characters takes exactly that many
bytes. -/

namespace PipeQuery.Text

/-! ## Size -/

/-- Adds the bytes of a text to `bytes`. -/
def sizeFrom (bytes : Nat) (cs : List Char) : Nat :=
  cs.foldl (fun bytes c => bytes + c.utf8Size) bytes

def size (cs : List Char) : Nat :=
  sizeFrom 0 cs

theorem sizeFrom_eq (bytes : Nat) (cs : List Char) : sizeFrom bytes cs = bytes + size cs := by
  induction cs generalizing bytes with
  | nil => rfl
  | cons c cs ih =>
    have hcons : sizeFrom bytes (c :: cs) = sizeFrom (bytes + c.utf8Size) cs := rfl
    have hsize : size (c :: cs) = sizeFrom (0 + c.utf8Size) cs := rfl
    rw [hcons, hsize, ih, ih (0 + c.utf8Size)]
    omega

@[simp] theorem size_nil : size [] = 0 := rfl

@[simp] theorem size_cons (c : Char) (cs : List Char) :
    size (c :: cs) = c.utf8Size + size cs := by
  have hcons : size (c :: cs) = sizeFrom (0 + c.utf8Size) cs := rfl
  rw [hcons, sizeFrom_eq, Nat.zero_add]

@[simp] theorem size_append (cs ds : List Char) : size (cs ++ ds) = size cs + size ds := by
  induction cs with
  | nil => simp
  | cons c cs ih => simp [ih, Nat.add_assoc]

theorem size_eq_zero_iff {cs : List Char} : size cs = 0 ↔ cs = [] := by
  cases cs with
  | nil => simp
  | cons c cs =>
    have := c.utf8Size_pos
    simp
    omega

theorem length_le_size (cs : List Char) : cs.length ≤ size cs := by
  induction cs with
  | nil => simp
  | cons c cs ih =>
    have := c.utf8Size_pos
    simp
    omega

/-! ## Fitting -/

/-- Counts on from `count` while characters still fit in `room` bytes. -/
def fitFrom (count : Nat) : Nat → List Char → Nat
  | _, [] => count
  | room, c :: cs =>
    if c.utf8Size ≤ room then fitFrom (count + 1) (room - c.utf8Size) cs else count

/-- How many leading characters of a text fit in `room` bytes. -/
def fit (room : Nat) (cs : List Char) : Nat :=
  fitFrom 0 room cs

theorem fitFrom_eq (count room : Nat) (cs : List Char) :
    fitFrom count room cs = count + fit room cs := by
  induction cs generalizing count room with
  | nil => simp [fit, fitFrom]
  | cons c cs ih =>
    simp only [fit, fitFrom]
    split
    · rw [ih, ih (0 + 1)]
      omega
    · omega

@[simp] theorem fit_nil (room : Nat) : fit room [] = 0 := rfl

theorem fit_cons (room : Nat) (c : Char) (cs : List Char) :
    fit room (c :: cs) =
      if c.utf8Size ≤ room then fit (room - c.utf8Size) cs + 1 else 0 := by
  simp only [fit, fitFrom]
  split
  · rw [fitFrom_eq, fit]
    omega
  · rfl

/-- The longest beginning of a text that fits in `room` bytes. -/
def clip (room : Nat) (cs : List Char) : List Char :=
  cs.take (fit room cs)

/-! ## Slicing -/

/-- Drops exactly `offset` bytes, if a character starts or the text ends there. -/
def after? : Nat → List Char → Option (List Char)
  | 0, cs => some cs
  | _, [] => none
  | offset, c :: cs => if c.utf8Size ≤ offset then after? (offset - c.utf8Size) cs else none

/-- Whether a character starts or the text ends at an offset. -/
def isBoundary (cs : List Char) (offset : Nat) : Bool :=
  (after? offset cs).isSome

/-- The last boundary that does not lie behind an offset. -/
def floorBoundary (cs : List Char) : Nat → Nat
  | 0 => 0
  | offset + 1 =>
    if isBoundary cs (offset + 1) then offset + 1 else floorBoundary cs offset

/-- The characters between two byte offsets, if both are places in the text and
the first does not lie behind the second. -/
def slice? (start stop : Nat) (cs : List Char) : Option (List Char) := do
  if stop < start then none
  let rest ← after? start cs
  let beyond ← after? (stop - start) rest
  return rest.take (rest.length - beyond.length)

/-- A text up to an offset, or all of it if no character starts there. -/
def truncate (offset : Nat) (cs : List Char) : List Char :=
  (slice? 0 offset cs).getD cs

end PipeQuery.Text
