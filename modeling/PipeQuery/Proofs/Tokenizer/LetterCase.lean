-- SUMMARY: Runs over texts that differ only in the case of letters take the same steps.
import Mathlib.Data.List.Forall2
import PipeQuery.Proofs.Recognizer.LetterCase
import PipeQuery.Proofs.Tokenizer.Unknown

/-! # Letter Case of Runs

A run over a text in lower case is the run over the text, in lower case. Rules match
alike, so the same one is chosen. Where none matches, how far some rule could have been
completed does not depend on case either: a text that completes it in one case does so
in any other. -/

namespace PipeQuery

open Text

/-! ## Choices -/

theorem Mode.ignoresCase_of_mem_rules (mode : Mode) :
    ∀ rule ∈ mode.rules, rule.recognizer.ignoresCase = true := by
  cases mode <;> decide

section Rules

variable {rules : List Rule} (h : ∀ rule ∈ rules, rule.recognizer.ignoresCase = true)
include h

theorem longestMatch_lower (cs : List Char) :
    longestMatch rules (lower cs) = longestMatch rules cs :=
  longestMatch_congr fun rule hrule => Recognizer.matchLength_lower (h rule hrule) cs

theorem completable_lower_iff {rule : Rule} (hrule : rule ∈ rules) {p : List Char} :
    rule.Completable (lower p) ↔ rule.Completable p := by
  -- What completes one completes the other, since both texts have the same lower case.
  have hsame : ∀ s, rule.recognizer.matchLength (lower p ++ s) =
      rule.recognizer.matchLength (p ++ s) := by
    intro s
    rw [← Recognizer.matchLength_lower (h rule hrule) (p ++ s),
      ← Recognizer.matchLength_lower (h rule hrule) (lower p ++ s)]
    simp
  simp [Rule.Completable, Scan.Completable, hsame]

/-- The longest beginning that could be completed is the same in lower case. -/
theorem LongestCompletable.lower {cs p : List Char} (hp : LongestCompletable rules cs p) :
    LongestCompletable rules (lower cs) (lower p) where
  begins := hp.begins.map _
  completable := by
    obtain ⟨rule, hrule, hcompletable⟩ := hp.completable
    exact ⟨rule, hrule, (completable_lower_iff h hrule).2 hcompletable⟩
  longest := by
    rintro q hq ⟨rule, hrule, hcompletable⟩
    have hlower : q = Text.lower (cs.take q.length) := by
      rw [← lower_take]
      exact List.prefix_iff_eq_take.1 hq
    rw [hlower, completable_lower_iff h hrule] at hcompletable
    have hle := hp.longest _ (List.take_prefix _ _) ⟨rule, hrule, hcompletable⟩
    have hlen := hq.length_le
    rw [length_lower] at hlen ⊢
    rwa [List.length_take, Nat.min_eq_left hlen] at hle

end Rules

/-- There is only one longest beginning. -/
theorem LongestCompletable.length_eq {rules : List Rule} {cs p q : List Char}
    (hp : LongestCompletable rules cs p) (hq : LongestCompletable rules cs q) :
    p.length = q.length :=
  Nat.le_antisymm (hq.longest p hp.begins hp.completable) (hp.longest q hq.begins hq.completable)

namespace Tokenizer

/-- Up to the end of the text, the choice takes as much in lower case. -/
theorem choose_lower (mode : Mode) (cs : List Char) :
    (choose mode (lower cs)).kind = (choose mode cs).kind ∧
      (choose mode (lower cs)).channel = (choose mode cs).channel ∧
      (choose mode (lower cs)).actions = (choose mode cs).actions ∧
      min (choose mode (lower cs)).length cs.length = min (choose mode cs).length cs.length := by
  have hrules := mode.ignoresCase_of_mem_rules
  have hmatch := longestMatch_lower hrules cs
  rcases choose_cases mode cs with ⟨rule, n, hbest, hchoose⟩ | ⟨hnone, hchoose⟩
  · have hlower : choose mode (lower cs) = choose mode cs := by
      rw [choose, choose, hmatch, hbest]
    simp [hlower]
  · have hnone' : longestMatch mode.rules (lower cs) = none := hmatch.trans hnone
    have hlongest := longestCompletable_take_reach (longestMatch_eq_none_iff.1 hnone)
    have hlongest' := longestCompletable_take_reach (longestMatch_eq_none_iff.1 hnone')
    have hreach := hlongest'.length_eq (hlongest.lower hrules)
    rw [choose_of_no_match (longestMatch_eq_none_iff.1 hnone),
      choose_of_no_match (longestMatch_eq_none_iff.1 hnone')]
    simp only [List.length_take, length_lower] at hreach
    refine ⟨rfl, rfl, rfl, ?_⟩
    show min (reach _ _ + 1) _ = min (reach _ _ + 1) _
    omega

/-! ## Calls -/

/-- A run with what is unread in lower case. -/
def lower (t : Tokenizer) : Tokenizer :=
  { t with rest := Text.lower t.rest }

end Tokenizer

def Token.lower (t : Token) : Token :=
  { t with text := String.ofList (Text.lower t.text.toList) }

namespace Tokenizer

/-- A step with the text of its token in lower case. -/
def Step.lower (s : Step) : Step :=
  { s with token := s.token.lower }

variable {t : Tokenizer}

theorem taken_lower (t : Tokenizer) : t.lower.taken = Text.lower t.taken := by
  obtain ⟨-, -, -, hlength⟩ := choose_lower t.mode t.rest
  have htake : (Text.lower t.rest).take (choose t.mode (Text.lower t.rest)).length =
      (Text.lower t.rest).take (choose t.mode t.rest).length := by
    rw [List.take_eq_take_min, length_lower, hlength, ← length_lower, ← List.take_eq_take_min]
  exact htake.trans (lower_take _ _)

theorem next_lower (t : Tokenizer) : t.lower.next = (t.next.1.lower, t.next.2.lower) := by
  by_cases h : t.rest = []
  · have h' : t.lower.rest = [] := by rw [lower, h]; rfl
    rw [next_of_rest_nil h, next_of_rest_nil h']
    rfl
  · have h' : t.lower.rest ≠ [] := fun hnil => h (lower_eq_nil_iff.1 hnil)
    obtain ⟨hkind, hchannel, hactions, -⟩ := choose_lower t.mode t.rest
    have hdrop : (Text.lower t.rest).drop (choose t.mode (Text.lower t.rest)).length =
        Text.lower (t.rest.drop (choose t.mode t.rest).length) := by
      have hall : t.lower.taken ++ t.lower.next.2.rest =
          Text.lower t.taken ++ Text.lower t.next.2.rest := by
        rw [taken_append_rest_next, ← lower_append, taken_append_rest_next]
        rfl
      rw [taken_lower, rest_next, rest_next] at hall
      exact List.append_cancel_left hall
    have hchoose : choose t.lower.mode t.lower.rest = choose t.mode (Text.lower t.rest) := rfl
    rw [next_of_rest_ne_nil h, next_of_rest_ne_nil h', taken_lower, hchoose, hkind, hchannel,
      hactions]
    simp [Token.lower, lower, Span.covering, Position.advanceOver_lower, hdrop]

/-! ## Runs -/

theorem steps_lower (hf : t.finished = false) : t.lower.steps = t.steps.map Step.lower := by
  induction t using run_induction with
  | atEnd t h =>
    have h' : t.lower.rest = [] := lower_eq_nil_iff.2 h
    rw [steps_of_rest_nil hf h, steps_of_rest_nil (t := t.lower) hf h']
    rfl
  | before t h ih =>
    have h' : t.lower.rest ≠ [] := fun hnil => h (lower_eq_nil_iff.1 hnil)
    rw [steps_of_rest_ne_nil hf h, steps_of_rest_ne_nil (t := t.lower) hf h', next_lower,
      ih (by rw [finished_next h, hf])]
    rfl

/-- Two steps that differ at most in the case of letters in their texts. -/
structure Step.SameUpToCase (s s' : Step) : Prop where
  mode : s.mode = s'.mode
  kind : s.token.kind = s'.token.kind
  span : s.token.span = s'.token.span
  channel : s.token.channel = s'.token.channel
  text : Text.lower s.token.text.toList = Text.lower s'.token.text.toList
  modes : s.modes = s'.modes

theorem Step.sameUpToCase_of_lower_eq {s s' : Step} (h : s.lower = s'.lower) :
    s.SameUpToCase s' where
  mode := congrArg (·.mode) h
  kind := congrArg (·.token.kind) h
  span := congrArg (·.token.span) h
  channel := congrArg (·.token.channel) h
  text := by simpa [Step.lower, Token.lower] using congrArg (·.token.text.toList) h
  modes := congrArg (·.modes) h

/-- Texts that differ only in the case of letters are read alike under every depth limit:
step by step with the same kinds, spans, channels and mode stacks, and with texts that
differ only in the case of letters. -/
theorem steps_sameUpToCase {text text' : List Char} (h : Text.lower text = Text.lower text')
    (maxDepth : Nat) :
    List.Forall₂ Step.SameUpToCase (start maxDepth text).steps (start maxDepth text').steps := by
  have hstart : (start maxDepth text).lower = (start maxDepth text').lower := by
    simp [lower, start, h]
  have hmap : (start maxDepth text).steps.map Step.lower =
      (start maxDepth text').steps.map Step.lower := by
    rw [← steps_lower rfl, ← steps_lower rfl, hstart]
  have hall : List.Forall₂ (fun s s' => Step.lower s = Step.lower s')
      (start maxDepth text).steps (start maxDepth text').steps := by
    rwa [← List.forall₂_map_right_iff, ← List.forall₂_map_left_iff, List.forall₂_eq_eq_eq]
  exact hall.imp fun _ _ => Step.sameUpToCase_of_lower_eq

/-- A keyword, an exponent, an escape and an identifier in either case. -/
theorem steps_sameUpToCase_of_row :
    Text.lower "ROW 1E5, \"\\N\", Abc NULLS".toList =
        Text.lower "row 1e5, \"\\n\", aBC nulls".toList ∧
      List.Forall₂ Step.SameUpToCase (start 8 "ROW 1E5, \"\\N\", Abc NULLS".toList).steps
        (start 8 "row 1e5, \"\\n\", aBC nulls".toList).steps :=
  have h : Text.lower "ROW 1E5, \"\\N\", Abc NULLS".toList =
      Text.lower "row 1e5, \"\\n\", aBC nulls".toList := by decide
  ⟨h, steps_sameUpToCase h 8⟩

end Tokenizer

end PipeQuery
