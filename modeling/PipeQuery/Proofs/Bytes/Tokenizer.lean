-- SUMMARY: Scans of bytes are safe: no index is out of range, every match and every reach ends between characters, and tokens cut by bytes are those of the run.
import PipeQuery.Bytes.Tokenizer
import PipeQuery.Proofs.Bytes.Open
import PipeQuery.Proofs.Bytes.Reach
import PipeQuery.Proofs.Tokenizer.Run
import PipeQuery.Rule.Table

/-! # Safety of Byte Scans

The scanners read any bytes in range, and on the bytes of a text they stop where the scanners of
characters stop. So the guards of the tokenizer never apply: a match always ends on a boundary,
and the end of an unknown token is never moved. -/

namespace PipeQuery

open Text

/-! ## Recognizers -/

namespace Recognizer

variable {r : Recognizer}

theorem matchBytes_bytes (h : r.IsAscii) (cs : List Char) :
    r.matchBytes (bytes cs) = .ok (r.matchSize cs) := by
  rw [matchBytes_eq h, chars_bytes, countsBytes_matchLength h]
  rfl

theorem reachBytes_bytes (h : r.IsAscii) (cs : List Char) :
    r.reachBytes (bytes cs) = .ok (r.reachSize cs) := by
  rw [reachBytes_eq h, chars_bytes, countsBytes_reach h, reachSize_eq h]

theorem matchSize_le_reachSize (h : r.IsAscii) (cs : List Char) :
    r.matchSize cs ≤ r.reachSize cs := by
  rw [reachSize_eq h]
  exact Scan.size_take_mono (Nat.le_max_right _ _)

end Recognizer

theorem Text.isBoundary_size_take (cs : List Char) (n : Nat) :
    isBoundary cs (size (cs.take n)) = true :=
  isBoundary_iff.2 ⟨_, List.take_prefix n cs, rfl⟩

theorem Text.size_take_le (cs : List Char) (n : Nat) : size (cs.take n) ≤ size cs :=
  size_le_of_prefix (List.take_prefix n cs)

theorem Text.slice?_size_take (cs : List Char) (n : Nat) :
    slice? 0 (size (cs.take n)) cs = some (cs.take n) := by
  have h := slice?_size_append [] (cs.take n) (cs.drop n)
  rwa [size_nil, Nat.zero_add, List.nil_append, List.take_append_drop] at h

/-- A longer beginning has more bytes. -/
theorem Text.size_take_lt_iff {cs : List Char} {n m : Nat} (hm : m ≤ cs.length) :
    size (cs.take n) < size (cs.take m) ↔ n < m := by
  rcases Nat.lt_or_ge n m with hlt | hge
  · have hmore := length_le_size ((cs.drop n).take (m - n))
    have hsplit := Scan.size_take_add cs n (m - n)
    rw [List.length_take, List.length_drop] at hmore
    rw [Nat.add_sub_cancel' (Nat.le_of_lt hlt)] at hsplit
    omega
  · exact iff_of_false (Nat.not_lt.2 (Scan.size_take_mono hge)) (Nat.not_lt.2 hge)

/-- The fixed texts of all rules are ASCII. -/
theorem Mode.isAscii_of_mem_rules (mode : Mode) : ∀ rule ∈ mode.rules, rule.recognizer.IsAscii := by
  cases mode <;> decide

/-! ## Longest Matches -/

/-- A choice with the bytes that it takes. -/
def Rule.inBytes (cs : List Char) (choice : Rule × Nat) : Rule × Nat :=
  (choice.1, size (cs.take choice.2))

theorem Rule.betterBytes_eq {cs : List Char} {best : Option (Rule × Nat)} {rule : Rule}
    (h : rule.recognizer.IsAscii) :
    Rule.betterBytes (bytes cs) (best.map (Rule.inBytes cs)) rule =
      .ok ((Rule.better cs best rule).map (Rule.inBytes cs)) := by
  have hlength := rule.recognizer.matchLength_le_length cs
  have hpos := @Recognizer.matchSize_pos_iff rule.recognizer cs
  -- Sizes compare as lengths do, since both are taken of the same characters.
  have hbeats : ∀ m, size (cs.take m) < rule.recognizer.matchSize cs ↔
      m < rule.recognizer.matchLength cs := fun m => size_take_lt_iff hlength
  rw [Rule.betterBytes, Recognizer.matchBytes_bytes h, Checked.ok_bind, Checked.pure_eq]
  congr 1
  rcases Rule.better_cases cs best rule with ⟨hsame, hle⟩ | ⟨hnew, hlt⟩
  · rw [hsame, if_neg]
    rintro ⟨hsome, hall⟩
    cases best with
    | none => exact absurd (hpos.1 hsome) (Nat.not_lt.2 hle)
    | some choice => exact absurd ((hbeats _).1 (hall _ rfl)) (Nat.not_lt.2 hle)
  · rw [hnew, if_pos]
    · rfl
    · refine ⟨hpos.2 (Nat.zero_lt_of_lt hlt), ?_⟩
      cases best with
      | none => simp
      | some choice =>
        intro found hfound
        obtain rfl : Rule.inBytes cs choice = found := Option.some.inj hfound
        exact (hbeats _).2 hlt

theorem foldlM_betterBytes {rules : List Rule} (h : ∀ rule ∈ rules, rule.recognizer.IsAscii)
    (cs : List Char) (best : Option (Rule × Nat)) :
    rules.foldlM (Rule.betterBytes (bytes cs)) (best.map (Rule.inBytes cs)) =
      .ok ((rules.foldl (Rule.better cs) best).map (Rule.inBytes cs)) := by
  induction rules generalizing best with
  | nil => rfl
  | cons rule rules ih =>
    obtain ⟨hrule, hrules⟩ := List.forall_mem_cons.1 h
    rw [List.foldlM_cons, Rule.betterBytes_eq hrule, Checked.ok_bind, ih hrules, List.foldl_cons]

theorem longestMatchBytes_eq {rules : List Rule} (h : ∀ rule ∈ rules, rule.recognizer.IsAscii)
    (cs : List Char) :
    longestMatchBytes rules (bytes cs) = .ok ((longestMatch rules cs).map (Rule.inBytes cs)) :=
  foldlM_betterBytes h cs none

namespace Tokenizer

/-! ## Unknown Text -/

theorem foldlM_reachBytes {rules : List Rule} (h : ∀ rule ∈ rules, rule.recognizer.IsAscii)
    (cs : List Char) (n : Nat) :
    (rules.foldlM (fun n rule => return max n (← rule.recognizer.reachBytes (bytes cs)))
        (size (cs.take n)) : Checked Nat) =
      .ok (size (cs.take (rules.foldl (fun n rule => max n (rule.recognizer.reach cs)) n))) := by
  induction rules generalizing n with
  | nil => rfl
  | cons rule rules ih =>
    obtain ⟨hrule, hrules⟩ := List.forall_mem_cons.1 h
    rw [List.foldlM_cons, Recognizer.reachBytes_bytes hrule, Recognizer.reachSize_eq hrule]
    simp only [Checked.ok_bind, Checked.pure_eq, ← Scan.size_take_max]
    exact ih hrules _

theorem attemptedBytes_eq {rules : List Rule} (h : ∀ rule ∈ rules, rule.recognizer.IsAscii)
    (cs : List Char) :
    attemptedBytes rules (bytes cs) = .ok (size (cs.take (reach rules cs))) :=
  foldlM_reachBytes h cs 0

/-- At a boundary there is nothing to go on to. -/
theorem ceilBoundary_of_isBoundary {cs : List Char} {offset : Nat}
    (h : isBoundary cs offset = true) : ceilBoundary cs offset = offset := by
  rw [ceilBoundary, dif_neg]
  rw [h]
  exact fun h => Bool.false_ne_true h.1.symm

theorem unknownBytes_eq {rules : List Rule} (h : ∀ rule ∈ rules, rule.recognizer.IsAscii)
    (cs : List Char) :
    unknownBytes rules cs = .ok (size (cs.take (unknownLength rules cs))) := by
  have hstop := Nat.min_eq_left (size_take_le cs (reach rules cs))
  have hrest : after? (size (cs.take (reach rules cs))) cs = some (cs.drop (reach rules cs)) := by
    have hsplit := after?_size_append (cs.take (reach rules cs)) (cs.drop (reach rules cs))
    rwa [List.take_append_drop] at hsplit
  rw [unknownBytes, attemptedBytes_eq h, Checked.ok_bind, hstop,
    ceilBoundary_of_isBoundary (isBoundary_size_take _ _), unknownLength, Scan.size_take_add]
  dsimp only
  rw [hrest]
  cases cs.drop (reach rules cs) with
  | nil => rfl
  | cons c rest => simp

/-! ## Tokens -/

theorem emit_take (t : Tokenizer) (kind : TokenKind) (channel : Channel) (n : Nat) :
    t.emit kind channel (t.rest.take n) =
      ({ kind, text := String.ofList (t.rest.take n)
         span := ⟨t.position, t.position.advanceOver (t.rest.take n)⟩, channel },
        { t with rest := t.rest.drop n, position := t.position.advanceOver (t.rest.take n) }) := by
  have hdrop : t.rest.drop (t.rest.take n).length = t.rest.drop n := by
    rw [List.length_take, List.drop_eq_drop_iff]
    omega
  rw [emit, hdrop]

/-- The tokenizer that cuts tokens by bytes is the one that cuts them by characters. -/
theorem nextBytes_eq (t : Tokenizer) : t.nextBytes = .ok t.next := by
  by_cases hne : t.rest = []
  · rw [nextBytes, if_pos hne, next_of_rest_nil hne]
    rfl
  · have hascii := t.mode.isAscii_of_mem_rules
    rw [nextBytes, if_neg hne, longestMatchBytes_eq hascii, Checked.ok_bind]
    rcases choose_cases t.mode t.rest with ⟨rule, n, hbest, hchoose⟩ | ⟨hnone, hchoose⟩
    · rw [hbest, next_of_rest_ne_nil hne, taken, hchoose]
      simp only [Option.map_some, Rule.inBytes, Option.bind_some, slice?_size_take, emit_take]
      rfl
    · rw [hnone, next_of_rest_ne_nil hne, taken, hchoose]
      simp only [Option.map_none, Option.bind_none, unknownBytes_eq hascii, Checked.ok_bind,
        slice?_size_take, emit_take]
      rfl

end Tokenizer

/-! ## Safety -/

/-- In any mode and on the bytes of any text: every rule's scans stay in range, its match lies
within its reach and its reach within the text, and both end on boundaries. So the match that is
chosen can be cut out, the end of an unknown token stands where the attempt ended, and cutting
tokens by bytes gives the run. -/
theorem byteScans_safe (mode : Mode) (cs : List Char) :
    (∀ rule ∈ mode.rules,
      rule.recognizer.matchBytes (bytes cs) = .ok (rule.recognizer.matchSize cs) ∧
      rule.recognizer.reachBytes (bytes cs) = .ok (rule.recognizer.reachSize cs) ∧
      rule.recognizer.matchSize cs ≤ rule.recognizer.reachSize cs ∧
      rule.recognizer.reachSize cs ≤ (bytes cs).size ∧
      isBoundary cs (rule.recognizer.matchSize cs) = true ∧
      isBoundary cs (rule.recognizer.reachSize cs) = true) ∧
    (∃ best, longestMatchBytes mode.rules (bytes cs) = .ok best ∧
      ∀ rule n, best = some (rule, n) → ∃ text, slice? 0 n cs = some text) ∧
    (∃ attempted, Tokenizer.attemptedBytes mode.rules (bytes cs) = .ok attempted ∧
      isBoundary cs (min attempted (bytes cs).size) = true ∧
      Tokenizer.ceilBoundary cs (min attempted (bytes cs).size) = min attempted (bytes cs).size) ∧
    ∀ t : Tokenizer, t.mode = mode → t.rest = cs → t.nextBytes = .ok t.next := by
  have hascii := mode.isAscii_of_mem_rules
  refine ⟨fun rule hrule => ?_, ⟨_, longestMatchBytes_eq hascii cs, ?_⟩,
    ⟨_, Tokenizer.attemptedBytes_eq hascii cs, ?_⟩, fun t _ _ => t.nextBytes_eq⟩
  · have h := hascii rule hrule
    refine ⟨Recognizer.matchBytes_bytes h cs, Recognizer.reachBytes_bytes h cs,
      Recognizer.matchSize_le_reachSize h cs, ?_, isBoundary_size_take _ _, ?_⟩
    · rw [Recognizer.reachSize_eq h, size_bytes]
      exact size_take_le _ _
    · rw [Recognizer.reachSize_eq h]
      exact isBoundary_size_take _ _
  · rintro rule n hbest
    obtain ⟨⟨best, m⟩, -, hchoice⟩ := Option.map_eq_some_iff.1 hbest
    obtain ⟨-, rfl⟩ := Prod.mk.inj hchoice
    exact ⟨_, slice?_size_take cs m⟩
  · rw [size_bytes, Nat.min_eq_left (size_take_le _ _)]
    have hboundary := isBoundary_size_take cs (Tokenizer.reach mode.rules cs)
    exact ⟨hboundary, Tokenizer.ceilBoundary_of_isBoundary hboundary⟩

end PipeQuery
