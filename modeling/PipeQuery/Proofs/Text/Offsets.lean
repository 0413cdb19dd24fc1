-- SUMMARY: Byte offsets and beginnings of a text: dropping, slicing and clipping at the size of a beginning.
import Mathlib.Data.List.Infix
import PipeQuery.Text.Size

/-! # Offsets and Beginnings

A byte offset names a place in a text exactly if it is the size of some
beginning of the text. Beginnings of one text are ordered by size, so an offset
stands for at most one of them, and clipping finds the longest that fits. -/

namespace PipeQuery.Text

/-! ## Beginnings -/

theorem size_le_of_prefix {p q : List Char} (h : p <+: q) : size p ≤ size q := by
  obtain ⟨s, rfl⟩ := h
  simp

/-- Of two beginnings of a text, the one with fewer bytes begins the other. -/
theorem prefix_of_size_le {cs p q : List Char} (hp : p <+: cs) (hq : q <+: cs)
    (h : size p ≤ size q) : p <+: q := by
  rcases List.prefix_or_prefix_of_prefix hp hq with hpq | ⟨s, rfl⟩
  · exact hpq
  · have hs : size s = 0 := by
      rw [size_append] at h
      omega
    rw [size_eq_zero_iff.1 hs, List.append_nil]

/-! ## Slices -/

theorem after?_size_append (p q : List Char) : after? (size p) (p ++ q) = some q := by
  induction p with
  | nil => cases q <;> rfl
  | cons c p ih =>
    have hpos := c.utf8Size_pos
    obtain ⟨n, hn⟩ : ∃ n, size (c :: p) = n + 1 := ⟨size (c :: p) - 1, by simp; omega⟩
    have hle : c.utf8Size ≤ n + 1 := by
      rw [← hn, size_cons]
      omega
    have hrest : n + 1 - c.utf8Size = size p := by
      rw [← hn, size_cons]
      omega
    simp [hn, after?, hle, hrest, ih]

theorem exists_of_after?_eq_some {n : Nat} {cs q : List Char} (h : after? n cs = some q) :
    ∃ p, cs = p ++ q ∧ size p = n := by
  induction cs generalizing n with
  | nil =>
    cases n with
    | zero => exact ⟨[], Option.some.inj h, rfl⟩
    | succ n => exact absurd h nofun
  | cons c cs ih =>
    cases n with
    | zero => exact ⟨[], Option.some.inj h, rfl⟩
    | succ n =>
      simp only [after?] at h
      split at h
      case isTrue hle =>
        obtain ⟨p, rfl, hp⟩ := ih h
        refine ⟨c :: p, rfl, ?_⟩
        rw [size_cons, hp]
        omega
      case isFalse => exact absurd h nofun

/-- What stands between two beginnings of a text is cut out at their sizes. -/
theorem slice?_size_append (p m q : List Char) :
    slice? (size p) (size p + size m) (p ++ (m ++ q)) = some m := by
  have hstop : size p + size m - size p = size m := by omega
  simp [slice?, after?_size_append, hstop]

/-- From a beginning of a text on, a text is cut out exactly if it stands there, up to where
it stops. -/
theorem slice?_size_iff {before rest text : List Char} {stop : Nat} :
    slice? (size before) stop (before ++ rest) = some text ↔
      text <+: rest ∧ size before + size text = stop := by
  constructor
  · intro h
    unfold slice? at h
    split at h
    case isTrue => exact absurd h nofun
    case isFalse hle =>
      rw [after?_size_append] at h
      obtain ⟨beyond, hbeyond, htext⟩ :
          ∃ beyond, after? (stop - size before) rest = some beyond ∧
            some (rest.take (rest.length - beyond.length)) = some text :=
        Option.bind_eq_some_iff.1 h
      obtain ⟨found, rfl, hsize⟩ := exists_of_after?_eq_some hbeyond
      obtain rfl : found = text := by simpa using htext
      refine ⟨List.prefix_append found beyond, ?_⟩
      omega
  · rintro ⟨⟨behind, rfl⟩, rfl⟩
    exact slice?_size_append before text behind

/-! ## Clipping -/

@[simp] theorem clip_nil (room : Nat) : clip room [] = [] := rfl

theorem clip_cons_of_le {room : Nat} {c : Char} (h : c.utf8Size ≤ room) (cs : List Char) :
    clip room (c :: cs) = c :: clip (room - c.utf8Size) cs := by
  simp [clip, fit_cons, h]

theorem clip_cons_of_lt {room : Nat} {c : Char} (h : room < c.utf8Size) (cs : List Char) :
    clip room (c :: cs) = [] := by
  simp [clip, fit_cons, Nat.not_le.2 h]

theorem clip_prefix_self (room : Nat) (cs : List Char) : clip room cs <+: cs :=
  List.take_prefix _ _

theorem size_clip_le (room : Nat) (cs : List Char) : size (clip room cs) ≤ room := by
  induction cs generalizing room with
  | nil => simp
  | cons c cs ih =>
    rcases Nat.lt_or_ge room c.utf8Size with hlt | hle
    · simp [clip_cons_of_lt hlt]
    · have := ih (room - c.utf8Size)
      rw [clip_cons_of_le hle, size_cons]
      omega

/-- No longer beginning than the clipped one fits. -/
theorem prefix_clip {room : Nat} {cs p : List Char} (hp : p <+: cs) (h : size p ≤ room) :
    p <+: clip room cs := by
  induction p generalizing room cs with
  | nil => exact List.nil_prefix
  | cons c p ih =>
    obtain ⟨s, rfl⟩ := hp
    rw [size_cons] at h
    have hle : c.utf8Size ≤ room := by omega
    rw [List.cons_append, clip_cons_of_le hle, List.cons_prefix_cons]
    exact ⟨rfl, ih (List.prefix_append p s) (by omega)⟩

/-- A text is clipped at the size of a beginning to that beginning. -/
theorem clip_size_append (p q : List Char) : clip (size p) (p ++ q) = p := by
  have hle : p <+: clip (size p) (p ++ q) := prefix_clip (List.prefix_append p q) (Nat.le_refl _)
  have hge : clip (size p) (p ++ q) <+: p :=
    prefix_of_size_le (clip_prefix_self _ _) (List.prefix_append p q) (size_clip_le _ _)
  exact hge.eq_of_length (Nat.le_antisymm hge.length_le hle.length_le)

/-- A wider room clips to a longer beginning. -/
theorem clip_prefix_clip {room more : Nat} (h : room ≤ more) (cs : List Char) :
    clip room cs <+: clip more cs :=
  prefix_clip (clip_prefix_self room cs) (Nat.le_trans (size_clip_le room cs) h)

/-- No room beyond the whole text is used. -/
theorem clip_min_size (room : Nat) (cs : List Char) : clip (min room (size cs)) cs = clip room cs := by
  have hle : clip (min room (size cs)) cs <+: clip room cs :=
    clip_prefix_clip (Nat.min_le_left _ _) cs
  have hge : clip room cs <+: clip (min room (size cs)) cs :=
    prefix_clip (clip_prefix_self _ _)
      (Nat.le_min.2 ⟨size_clip_le _ _, size_le_of_prefix (clip_prefix_self _ _)⟩)
  exact hle.eq_of_length (Nat.le_antisymm hle.length_le hge.length_le)

/-! ## Boundaries -/

/-- The boundaries of a text are the sizes of its beginnings. -/
theorem isBoundary_iff {cs : List Char} {offset : Nat} :
    isBoundary cs offset = true ↔ ∃ p, p <+: cs ∧ size p = offset := by
  rw [isBoundary, Option.isSome_iff_exists]
  constructor
  · rintro ⟨q, hq⟩
    obtain ⟨p, rfl, hp⟩ := exists_of_after?_eq_some hq
    exact ⟨p, List.prefix_append p q, hp⟩
  · rintro ⟨p, ⟨q, rfl⟩, rfl⟩
    exact ⟨q, after?_size_append p q⟩

/-- The last boundary up to an offset is where the text is clipped. -/
theorem floorBoundary_eq (cs : List Char) (offset : Nat) :
    floorBoundary cs offset = size (clip offset cs) := by
  induction offset with
  | zero => exact (Nat.le_zero.1 (size_clip_le 0 cs)).symm
  | succ offset ih =>
    rw [floorBoundary]
    split
    case isTrue h =>
      obtain ⟨p, ⟨q, rfl⟩, hp⟩ := isBoundary_iff.1 h
      rw [← hp, clip_size_append]
    case isFalse h =>
      have hne : size (clip (offset + 1) cs) ≠ offset + 1 := fun hsize =>
        h (isBoundary_iff.2 ⟨_, clip_prefix_self _ _, hsize⟩)
      have hlt : size (clip (offset + 1) cs) ≤ offset :=
        Nat.le_of_lt_succ (Nat.lt_of_le_of_ne (size_clip_le _ _) hne)
      have hle : clip (offset + 1) cs <+: clip offset cs := prefix_clip (clip_prefix_self _ _) hlt
      have hge : clip offset cs <+: clip (offset + 1) cs := clip_prefix_clip (Nat.le_succ _) cs
      rw [ih, hge.eq_of_length (Nat.le_antisymm hge.length_le hle.length_le)]

/-- To truncate a text at the last boundary up to an offset is to clip it there. -/
theorem truncate_floorBoundary (offset : Nat) (cs : List Char) :
    truncate (floorBoundary cs offset) cs = clip offset cs := by
  obtain ⟨q, hq⟩ := clip_prefix_self offset cs
  have hslice : slice? 0 (size (clip offset cs)) cs = some (clip offset cs) := by
    have h := slice?_size_append [] (clip offset cs) q
    rwa [List.nil_append, hq, size_nil, Nat.zero_add] at h
  rw [floorBoundary_eq, truncate, hslice]
  rfl

theorem clip_of_size_le {room : Nat} {cs : List Char} (h : size cs ≤ room) : clip room cs = cs :=
  (clip_prefix_self room cs).eq_of_length
    (Nat.le_antisymm (clip_prefix_self room cs).length_le
      (prefix_clip (List.prefix_refl cs) h).length_le)

end PipeQuery.Text
