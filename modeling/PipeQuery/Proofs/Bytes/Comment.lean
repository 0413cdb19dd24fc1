-- SUMMARY: The table of comment ends is filled without an index out of range, and holds for each index where a body ends that begins there.
import PipeQuery.Bytes.Scan
import PipeQuery.Proofs.Bytes.Ahead
import PipeQuery.Proofs.Recognizer.Comment

/-! # Comments in Bytes

Each entry of the table looks up later ones: the one for the next index, and where another comment
opens, the one for its body and the one where that body ends. A body begins at most at the end of
the bytes and ends in range, so all of these are there. -/

namespace PipeQuery.Bytes

open CharClass Scan

/-! ## Line Comments -/

theorem lineComment_eq (bs : Bytes) : bs.lineComment = Scan.lineComment bs.chars := by
  unfold Bytes.lineComment
  split
  case isTrue h =>
    obtain ⟨rest, hrest⟩ := beginsWith_iff.1 h
    rw [run_eq, ← hrest]
    rfl
  case isFalse h =>
    refine (Scan.lineComment.eq_2 _ fun ds hds => h ?_).symm
    exact beginsWith_iff.2 ⟨ds, hds.symm⟩

/-! ## Ends of Bodies -/

/-- Where a comment body ends that begins at an index. -/
def endAt? (bs : Bytes) (i : Nat) : Option Nat :=
  (Comment.remains? (bs.chars.drop i)).map (bs.size - ·)

section Ends

variable {bs : Bytes} {i : Nat} {ds : List Char}

/-- A body that ends takes two bytes at least, and does not end behind the text. -/
theorem endAt?_le {stop : Nat} (h : bs.endAt? i = some stop) :
    i + 2 ≤ stop ∧ stop ≤ bs.size := by
  obtain ⟨k, hk, rfl⟩ := Option.map_eq_some_iff.1 h
  have hle := Comment.remains?_lt hk
  rw [List.length_drop, length_chars] at hle
  omega

theorem endAt?_close (h : bs.Ahead i ('*' :: '/' :: ds)) : bs.endAt? i = some (i + 2) := by
  have hlen := h.length_eq
  rw [List.length_cons, List.length_cons] at hlen
  rw [endAt?, h.rest, Comment.remains?_close, Option.map_some]
  congr 1
  omega

/-- Another comment inside is looked up first, and then the body behind it. -/
theorem endAt?_open (h : bs.Ahead i ('/' :: '*' :: ds)) :
    bs.endAt? i = ((bs.endAt? (i + 2)).bind bs.endAt?).or (bs.endAt? (i + 1)) := by
  have hlen := h.tail.tail.length_eq
  have hbehind : ∀ k, Comment.remains? ds = some k →
      bs.chars.drop (bs.size - k) = ds.drop (ds.length - k) := by
    intro k hk
    have hle := Comment.remains?_lt hk
    rw [← h.tail.tail.rest, List.drop_drop, h.tail.tail.rest]
    congr 1
    omega
  rw [endAt?, endAt?, endAt?, h.rest, h.tail.rest, h.tail.tail.rest, Comment.remains?_open,
    Option.map_or]
  congr 1
  cases hremains : Comment.remains? ds with
  | none => rfl
  | some k => rw [Option.bind_some, Option.map_some, Option.bind_some, endAt?, hbehind k hremains]

theorem endAt?_plain {c : Char} (h : bs.Ahead i (c :: ds))
    (hclose : ¬(c = '*' ∧ ds.head? = some '/')) (hopen : ¬(c = '/' ∧ ds.head? = some '*')) :
    bs.endAt? i = bs.endAt? (i + 1) := by
  rw [endAt?, endAt?, h.rest, h.tail.rest, Comment.remains?_plain hclose hopen]

end Ends

/-! ## The Table -/

/-- A table that holds the ends of the bodies from an index on. -/
structure Filled (bs : Bytes) (ends : Array (Option Nat)) (i : Nat) : Prop where
  size : ends.size = bs.size + 1
  getElem? : ∀ j, i ≤ j → j ≤ bs.size → ends[j]? = some (bs.endAt? j)

theorem Filled.entry {bs : Bytes} {ends : Array (Option Nat)} {i j : Nat} (h : bs.Filled ends i)
    (hij : i ≤ j) (hj : j ≤ bs.size) : Checked.entry ends j = .ok (bs.endAt? j) :=
  Checked.entry_of_getElem? (h.getElem? j hij hj)

theorem isPrefixOf_pair_eq_false {a b c : Char} {ds : List Char}
    (h : ¬(c = a ∧ ds.head? = some b)) : [a, b].isPrefixOf (c :: ds) = false := by
  rw [← Bool.not_eq_true, List.isPrefixOf_iff_prefix]
  rintro ⟨es, hes⟩
  obtain ⟨rfl, rfl⟩ := List.cons.inj hes
  exact h ⟨rfl, rfl⟩

/-- Both lookups for a comment inside are in range: its body begins at most at the end, and what
the table says of it is no index behind the end. -/
theorem bodyEnd_eq {bs : Bytes} {ends : Array (Option Nat)} {i : Nat}
    (h : bs.Filled ends (i + 1)) (hi : i < bs.size) : bs.bodyEnd ends i = .ok (bs.endAt? i) := by
  have hplace : bs.Ahead i (bs.chars.drop i) := ⟨Nat.le_of_lt hi, rfl⟩
  have hnext := h.entry (Nat.le_refl _) hi
  obtain ⟨rest, hsuffix, hrest⟩ := hplace.suffix
  have hbegins : ∀ text, rest.beginsWith text = text.isPrefixOf (bs.chars.drop i) := by
    intro text
    rw [beginsWith, hrest]
  rw [bodyEnd, hsuffix, Checked.ok_bind, hbegins, hbegins, hnext]
  -- The body closes here, opens another one, or goes on, as its characters say.
  rcases Comment.cases_of_text (bs.chars.drop i) with hnil | ⟨ds, hds⟩ | ⟨ds, hds⟩ |
    ⟨c, ds, hds, hclose, hopen⟩
  · rw [hnil] at hplace
    exact absurd hplace.eq_size hi.ne
  · rw [hds] at hplace
    rw [endAt?_close hplace, hds]
    rfl
  · rw [hds] at hplace
    have hinner := h.entry (Nat.le_succ _) (j := i + 2) hplace.tail.lt_size
    have hnested : endBehindNested ends i = .ok ((bs.endAt? (i + 2)).bind bs.endAt?) := by
      rw [endBehindNested, hinner, Checked.ok_bind]
      cases hend : bs.endAt? (i + 2) with
      | none => rfl
      | some inner =>
        obtain ⟨hlow, hhigh⟩ := endAt?_le hend
        exact h.entry (by omega) hhigh
    rw [endAt?_open hplace, hds, hnested]
    rfl
  · rw [hds] at hplace
    rw [endAt?_plain hplace hclose hopen, hds, isPrefixOf_pair_eq_false hclose,
      isPrefixOf_pair_eq_false hopen]
    rfl

/-- One more entry keeps those behind it. -/
theorem Filled.replace {bs : Bytes} {ends : Array (Option Nat)} {i : Nat}
    (h : bs.Filled ends (i + 1)) (hi : i < bs.size) :
    bs.Filled (ends.setIfInBounds i (bs.endAt? i)) i := by
  refine ⟨by rw [Array.size_setIfInBounds, h.size], fun j hij hj => ?_⟩
  rcases Nat.eq_or_lt_of_le hij with rfl | hlt
  · rw [Array.getElem?_setIfInBounds_self_of_lt]
    rw [h.size]
    omega
  · rw [Array.getElem?_setIfInBounds_ne (Nat.ne_of_lt hlt), h.getElem? j hlt hj]

/-- The table is filled from an index down to the beginning. -/
theorem fillEnds_eq {bs : Bytes} {ends : Array (Option Nat)} {i : Nat} (h : bs.Filled ends i)
    (hi : i ≤ bs.size) : ∃ full, bs.fillEnds i ends = .ok full ∧ bs.Filled full 0 := by
  induction i generalizing ends with
  | zero => exact ⟨ends, rfl, h⟩
  | succ i ih =>
    have hlt : i < ends.size := by
      rw [h.size]
      omega
    obtain ⟨full, hfull, hfilled⟩ := ih (h.replace hi) (Nat.le_of_succ_le hi)
    refine ⟨full, ?_, hfilled⟩
    rw [fillEnds, bodyEnd_eq h hi, Checked.ok_bind, Checked.replace_of_lt hlt, Checked.ok_bind,
      hfull]

theorem bodyEnds_eq (bs : Bytes) : ∃ ends, bs.bodyEnds = .ok ends ∧ bs.Filled ends 0 := by
  refine fillEnds_eq ⟨Array.size_replicate, fun j hj hle => ?_⟩ (Nat.le_refl _)
  obtain rfl := Nat.le_antisymm hle hj
  have hnone : bs.endAt? bs.size = none := by
    rw [endAt?, List.drop_of_length_le (Nat.le_of_eq bs.length_chars)]
    rfl
  rw [hnone, Array.getElem?_replicate, if_pos (Nat.lt_succ_self _)]

theorem blockComment_eq (bs : Bytes) : bs.blockComment = .ok (Scan.blockComment bs.chars) := by
  unfold Bytes.blockComment
  split
  case isTrue h =>
    obtain ⟨cs, hcs⟩ := beginsWith_iff.1 h
    have hlen := congrArg List.length hcs
    rw [length_chars] at hlen
    simp only [List.cons_append, List.nil_append, List.length_cons] at hlen
    obtain ⟨ends, hends, hfilled⟩ := bs.bodyEnds_eq
    have hbody : bs.endAt? 2 = (Comment.remains? cs).map (bs.size - ·) := by
      rw [endAt?, ← hcs]
      rfl
    rw [hends, Checked.ok_bind, hfilled.getElem? 2 (Nat.zero_le _) (by omega), hbody, ← hcs]
    cases hremains : Comment.remains? cs with
    | none => simp [Scan.blockComment, Comment.bodyLength?_eq, hremains]
    | some k =>
      have hk := Comment.remains?_lt hremains
      simp only [Scan.blockComment, List.cons_append, List.nil_append, Comment.bodyLength?_eq,
        hremains, Option.map_some, Option.join_some, Option.getD_some, Checked.pure_eq,
        Except.ok.injEq]
      omega
  case isFalse h =>
    have hnone : Scan.blockComment bs.chars = 0 :=
      Scan.blockComment.eq_2 _ fun ds hds => h (beginsWith_iff.2 ⟨ds, hds.symm⟩)
    rw [hnone]
    rfl

end PipeQuery.Bytes
