-- SUMMARY: Unknown tokens: when the tokenizer emits one, and that it takes exactly what some rule could still have completed, with the character behind it.
import PipeQuery.Proofs.Recognizer.Open
import PipeQuery.Proofs.Tokenizer.Run

/-! # Unknown Text

Text that no rule of a mode matches is taken as far as it fits some rule, and then
the character on which it fails. That the longest fitting beginning is taken, and
not only some, rests on the open lengths of the recognizers. -/

namespace PipeQuery

/-! ## Reach of Rules -/

/-- Whether a rule accepts all of some text that begins like this. -/
def Rule.Completable (rule : Rule) (p : List Char) : Prop :=
  Scan.Completable rule.recognizer.matchLength p

/-- The longest beginning of a text that some rule could complete. -/
structure LongestCompletable (rules : List Rule) (cs p : List Char) : Prop where
  begins : p <+: cs
  completable : ∃ rule ∈ rules, rule.Completable p
  longest : ∀ q, q <+: cs → (∃ rule ∈ rules, rule.Completable q) → q.length ≤ p.length

namespace Tokenizer

theorem reach_le_iff {rules : List Rule} {cs : List Char} {n : Nat} :
    reach rules cs ≤ n ↔ ∀ rule ∈ rules, rule.recognizer.reach cs ≤ n := by
  suffices h : ∀ m, rules.foldl (fun n rule => max n (rule.recognizer.reach cs)) m ≤ n ↔
      m ≤ n ∧ ∀ rule ∈ rules, rule.recognizer.reach cs ≤ n by
    simpa [reach] using h 0
  induction rules with
  | nil => simp
  | cons rule rules ih =>
    intro m
    rw [List.foldl_cons, ih, Nat.max_le, List.forall_mem_cons, and_assoc]

/-- Some rule reaches as far as all of them do. -/
theorem exists_reach_eq {rules : List Rule} (hne : rules ≠ []) (cs : List Char) :
    ∃ rule ∈ rules, rule.recognizer.reach cs = reach rules cs := by
  by_contra hnone
  have hle : ∀ rule ∈ rules, rule.recognizer.reach cs ≤ reach rules cs :=
    reach_le_iff.1 (Nat.le_refl _)
  have hlt : ∀ rule ∈ rules, rule.recognizer.reach cs < reach rules cs := by
    intro rule hrule
    exact Nat.lt_of_le_of_ne (hle rule hrule) fun heq => hnone ⟨rule, hrule, heq⟩
  obtain ⟨rule, hrule⟩ := List.exists_mem_of_ne_nil rules hne
  -- If all rules fell short of the reach, they would fit within one less.
  have hpos := Nat.zero_lt_of_lt (hlt rule hrule)
  have hpred : reach rules cs ≤ reach rules cs - 1 :=
    reach_le_iff.2 fun rule hrule => Nat.le_sub_one_of_lt (hlt rule hrule)
  omega

/-- Every mode has rules, and each of them accepts some text. -/
theorem rules_proper (mode : Mode) :
    mode.rules ≠ [] ∧ ∀ rule ∈ mode.rules, rule.recognizer.Proper := by
  cases mode <;> decide

theorem reach_of_matchLength_eq_zero {r : Recognizer} {cs : List Char} (h : r.matchLength cs = 0) :
    r.reach cs = r.openLength cs := by
  rw [Recognizer.reach, h, Nat.max_zero]

/-- Where no rule matches, the reach is that of the longest beginning that a rule
could complete. -/
theorem longestCompletable_take_reach {mode : Mode} {cs : List Char}
    (h : ∀ rule ∈ mode.rules, rule.recognizer.matchLength cs = 0) :
    LongestCompletable mode.rules cs (cs.take (reach mode.rules cs)) := by
  obtain ⟨hne, hproper⟩ := rules_proper mode
  refine ⟨List.take_prefix _ _, ?_, ?_⟩
  · obtain ⟨rule, hrule, hreach⟩ := exists_reach_eq hne cs
    refine ⟨rule, hrule, ?_⟩
    rw [← hreach, reach_of_matchLength_eq_zero (h rule hrule)]
    exact (Recognizer.measures (hproper rule hrule)).completable (h rule hrule)
  · rintro q hq ⟨rule, hrule, hcompletable⟩
    obtain ⟨s, hpos⟩ := Scan.Completable.pos hcompletable
    have hopen := (Recognizer.measures (hproper rule hrule)).fits (h rule hrule) hq hpos
    rw [← reach_of_matchLength_eq_zero (h rule hrule)] at hopen
    rw [List.length_take]
    exact Nat.le_min.2 ⟨Nat.le_trans hopen (reach_le_iff.1 (Nat.le_refl _) rule hrule), hq.length_le⟩

/-! ## Unknown Tokens -/

/-- The choice is unknown text exactly if no rule matches. -/
theorem choose_kind_eq_unknown_iff {mode : Mode} {cs : List Char} :
    (choose mode cs).kind = .unknown ↔
      ∀ rule ∈ mode.rules, rule.recognizer.matchLength cs = 0 := by
  rw [← longestMatch_eq_none_iff]
  rcases choose_cases mode cs with ⟨rule, n, hbest, hchoose⟩ | ⟨hnone, hchoose⟩
  · have hkind := (kind_of_mem_rules mode rule (mem_rules_of_longestMatch hbest)).2
    rw [hchoose, hbest]
    exact iff_of_false hkind nofun
  · rw [hchoose, hnone]
    exact iff_of_true rfl rfl

theorem choose_of_no_match {mode : Mode} {cs : List Char}
    (h : ∀ rule ∈ mode.rules, rule.recognizer.matchLength cs = 0) :
    choose mode cs = ⟨.unknown, .default, reach mode.rules cs + 1, []⟩ := by
  rw [choose, longestMatch_eq_none_iff.2 h]
  rfl

/-- Before the end of the text, the next token is unknown exactly if no rule of the
mode matches. Then it is on the default channel and leaves the modes alone, and it
takes the longest beginning that some rule could complete, with the next character
behind it if there is one. -/
theorem unknown_token (t : Tokenizer) (h : t.rest ≠ []) :
    (t.next.1.kind = .unknown ↔
      ∀ rule ∈ t.mode.rules, rule.recognizer.matchLength t.rest = 0) ∧
    (t.next.1.kind = .unknown →
      t.next.1.channel = .default ∧ t.next.2.modes = t.modes ∧
      ∃ p behind, t.rest = p ++ behind ∧ LongestCompletable t.mode.rules t.rest p ∧
        t.next.1.text.toList = p ++ behind.take 1) := by
  have hkind : t.next.1.kind = .unknown ↔
      ∀ rule ∈ t.mode.rules, rule.recognizer.matchLength t.rest = 0 := by
    rw [kind_next h]
    exact choose_kind_eq_unknown_iff
  refine ⟨hkind, fun hunknown => ?_⟩
  have hnone := hkind.1 hunknown
  have hchoose := choose_of_no_match hnone
  refine ⟨?_, ?_, t.rest.take (reach t.mode.rules t.rest), t.rest.drop (reach t.mode.rules t.rest),
    (List.take_append_drop _ _).symm, longestCompletable_take_reach hnone, ?_⟩
  · rw [next_of_rest_ne_nil h, hchoose]
  · rw [modes_next h, hchoose]
    rfl
  · rw [next_of_rest_ne_nil h]
    simp only [taken, hchoose, String.toList_ofList, List.take_add]

/-- A string is given up at an escape that does not exist: up to the backslash it
could have been closed, and the letter behind it is where it fails. -/
theorem unknown_token_of_bad_escape :
    ∃ t, Reachable 8 "row \"a\\x b\"".toList t ∧ t.rest ≠ [] ∧ t.next.1.kind = .unknown ∧
      t.next.1.channel = .default ∧ t.next.2.modes = t.modes ∧
      ∃ p behind, t.rest = p ++ behind ∧ LongestCompletable t.mode.rules t.rest p ∧
        "\"a\\x".toList = p ++ behind.take 1 := by
  have hrest : (start 8 "row \"a\\x b\"".toList).next.2.next.2.rest ≠ [] := by decide +kernel
  have hkind : (start 8 "row \"a\\x b\"".toList).next.2.next.2.next.1.kind = .unknown := by
    decide +kernel
  have htext : (start 8 "row \"a\\x b\"".toList).next.2.next.2.next.1.text = "\"a\\x" := by
    decide +kernel
  obtain ⟨hchannel, hmodes, p, behind, hsplit, hlongest, htaken⟩ := (unknown_token _ hrest).2 hkind
  rw [htext] at htaken
  exact ⟨_, .next (.next .start), hrest, hkind, hchannel, hmodes, p, behind, hsplit, hlongest, htaken⟩

end Tokenizer

end PipeQuery
