-- SUMMARY: Blanks and comments are hidden tokens in every mode, and nothing else is.
import PipeQuery.Proofs.Recognizer.Trivia
import PipeQuery.Proofs.Tokenizer.Run

/-! # Hidden Tokens

Every mode has its own rules for blanks and comments, among rules that accept slashes or
almost anything. Whatever the other rules accept, a text that begins with trivia gives a hidden
token of that trivia and leaves the modes alone. Any other token is visible, and of a kind that
no hidden token has. -/

namespace PipeQuery

/-! ## Tables -/

theorem Mode.exists_rule_of_trivia (mode : Mode) (kind : Trivia) :
    ∃ rule ∈ mode.rules, rule.recognizer = Rule.triviaRecognizer kind := by
  cases mode <;> cases kind <;> decide

/-- Rules for trivia emit that trivia of the mode and hide it. -/
theorem Mode.trivia_of_mem_rules (mode : Mode) :
    ∀ rule ∈ mode.rules, ∀ kind ∈ Trivia.all, rule.recognizer = Rule.triviaRecognizer kind →
      rule.kind = .trivia mode kind ∧ rule.channel = .hidden ∧ rule.actions = [] := by
  cases mode <;> decide

/-- Other rules hide nothing. -/
theorem Mode.visible_of_mem_rules (mode : Mode) :
    ∀ rule ∈ mode.rules, (∀ kind ∈ Trivia.all, rule.recognizer ≠ Rule.triviaRecognizer kind) →
      rule.channel = .default ∧ rule.kind.isHiddenByDefault = false := by
  cases mode <;> decide

theorem Mode.sparesTrivia_of_mem_rules (mode : Mode) :
    ∀ rule ∈ mode.rules, rule.recognizer.sparesTrivia := by
  cases mode <;> decide

/-! ## Kinds -/

namespace Trivia

/-- The predicate of kinds that trivia satisfies. -/
def classifies : Trivia → TokenKind → Bool
  | .lineComment => TokenKind.isLineComment
  | .blockComment => TokenKind.isBlockComment
  | .whitespace => TokenKind.isWhitespace

variable (mode : Mode) (kind : Trivia)

theorem classifies_trivia : kind.classifies (.trivia mode kind) = true := by
  cases kind <;> rfl

theorem isHiddenByDefault_trivia : (TokenKind.trivia mode kind).isHiddenByDefault = true := by
  cases kind <;> rfl

end Trivia

/-- Of each token the channel says what its kind says. -/
def Classified (tokens : List Token) : Prop :=
  ∀ t ∈ tokens, t.kind.isHiddenByDefault = t.isHidden

namespace Tokenizer

/-! ## Choices -/

section Choices

variable {mode : Mode} {cs : List Char}

/-- A text that begins with trivia is read as that trivia in every mode. -/
theorem choose_of_begins {kind : Trivia} (h : kind.Begins cs) :
    choose mode cs =
      ⟨.trivia mode kind, .hidden, (Rule.triviaRecognizer kind).matchLength cs, []⟩ := by
  obtain ⟨own, hown, hrecognizer⟩ := mode.exists_rule_of_trivia kind
  have hown_le := matchLength_le_choose hown cs
  rw [hrecognizer] at hown_le
  rcases choose_cases mode cs with ⟨best, n, hbest, hchoose⟩ | ⟨hnone, -⟩
  · obtain ⟨hmem, hlength, -⟩ := longestMatch_matches hbest
    have hn : best.recognizer.matchLength cs = n := hlength
    have hle : (Rule.triviaRecognizer kind).matchLength cs ≤ best.recognizer.matchLength cs := by
      rwa [hchoose, ← hn] at hown_le
    -- Any other recognizer would have taken less than the rule for this trivia does.
    have hsame : best.recognizer = Rule.triviaRecognizer kind := by
      by_contra hother
      have hlt := Trivia.matchLength_lt h (mode.sparesTrivia_of_mem_rules best hmem) hother
      exact absurd hle (Nat.not_le_of_lt hlt)
    obtain ⟨hkind, hchannel, hactions⟩ :=
      mode.trivia_of_mem_rules best hmem kind kind.mem_all hsame
    rw [hchoose, hkind, hchannel, hactions, ← hn, hsame]
  · have hzero := longestMatch_eq_none_iff.1 hnone own hown
    rw [hrecognizer] at hzero
    exact absurd (Trivia.begins_iff.1 h) (Nat.not_lt_of_ge (Nat.le_of_eq hzero))

/-- A choice hides trivia that the text begins with, or it is visible. -/
theorem begins_or_visible (mode : Mode) (cs : List Char) :
    (∃ kind, Trivia.Begins kind cs) ∨
      (choose mode cs).channel = .default ∧ (choose mode cs).kind.isHiddenByDefault = false := by
  rcases choose_cases mode cs with ⟨best, n, hbest, hchoose⟩ | ⟨-, hchoose⟩
  · obtain ⟨hmem, hlength, hpos⟩ := longestMatch_matches hbest
    by_cases htrivia : ∃ kind, best.recognizer = Rule.triviaRecognizer kind
    · obtain ⟨kind, hrecognizer⟩ := htrivia
      left
      refine ⟨kind, Trivia.begins_iff.2 ?_⟩
      rw [← hrecognizer, hlength]
      exact hpos
    · right
      rw [hchoose]
      exact mode.visible_of_mem_rules best hmem fun kind _ heq => htrivia ⟨kind, heq⟩
  · rw [hchoose]
    exact .inr ⟨rfl, rfl⟩

end Choices

/-! ## Tokens -/

section Tokens

variable {t : Tokenizer}

/-- The token of trivia, and the run behind it. -/
theorem next_of_begins {kind : Trivia} (h : kind.Begins t.rest) :
    t.next.1.kind = .trivia t.mode kind ∧ t.next.1.channel = .hidden ∧
      kind.Takes t.rest t.next.1.text.toList ∧ t.next.2.modes = t.modes := by
  have htakes := Trivia.takes_take h
  rw [next_of_rest_ne_nil h.ne_nil, taken, choose_of_begins h, String.toList_ofList]
  exact ⟨rfl, rfl, htakes, rfl⟩

theorem begins_of_hidden (h : t.next.1.channel = .hidden) : ∃ kind, Trivia.Begins kind t.rest := by
  have hrest : t.rest ≠ [] := by
    intro hrest
    rw [next_of_rest_nil hrest] at h
    exact absurd h nofun
  rcases begins_or_visible t.mode t.rest with hbegins | ⟨hchannel, -⟩
  · exact hbegins
  · rw [channel_next hrest, hchannel] at h
    exact absurd h nofun

/-- Of every token the channel says what its kind says. -/
theorem isHiddenByDefault_next (t : Tokenizer) :
    t.next.1.kind.isHiddenByDefault = t.next.1.isHidden := by
  by_cases hrest : t.rest = []
  · rw [next_of_rest_nil hrest]
    rfl
  rcases begins_or_visible t.mode t.rest with ⟨kind, hbegins⟩ | ⟨hchannel, hkind⟩
  · obtain ⟨hkind, hchannel, -⟩ := next_of_begins hbegins
    rw [Token.isHidden, hkind, hchannel]
    exact kind.isHiddenByDefault_trivia t.mode
  · rw [Token.isHidden, kind_next hrest, channel_next hrest, hchannel, hkind]
    rfl

theorem classified_tokens (t : Tokenizer) (hf : t.finished = false) : Classified t.tokens := by
  induction t using run_induction with
  | atEnd t hrest =>
    rw [tokens_of_rest_nil hf hrest]
    exact List.forall_mem_singleton.2 rfl
  | before t hrest ih =>
    rw [tokens_of_rest_ne_nil hf hrest]
    exact List.forall_mem_cons.2 ⟨isHiddenByDefault_next t, ih (by rw [finished_next hrest, hf])⟩

/-- The next token is hidden exactly if the unread text begins with trivia. Then it is that
trivia of the mode, as much as there is of it, and no mode changes. Visible tokens have kinds
that no hidden token has. -/
theorem hidden_next (t : Tokenizer) :
    (t.next.1.channel = .hidden ↔ ∃ kind, Trivia.Begins kind t.rest) ∧
    (∀ kind, Trivia.Begins kind t.rest →
      t.next.1.kind = .trivia t.mode kind ∧
      t.next.1.kind.isHiddenByDefault = true ∧
      kind.classifies t.next.1.kind = true ∧
      kind.Takes t.rest t.next.1.text.toList ∧
      t.next.2.modes = t.modes) ∧
    (t.next.1.channel = .default → t.next.1.kind.isHiddenByDefault = false) := by
  refine ⟨⟨begins_of_hidden, ?_⟩, ?_, ?_⟩
  · rintro ⟨kind, hbegins⟩
    exact (next_of_begins hbegins).2.1
  · intro kind hbegins
    obtain ⟨hkind, -, htakes, hmodes⟩ := next_of_begins hbegins
    rw [hkind]
    exact ⟨rfl, kind.isHiddenByDefault_trivia t.mode, kind.classifies_trivia t.mode, htakes, hmodes⟩
  · intro hdefault
    rw [isHiddenByDefault_next, Token.isHidden, hdefault]
    rfl

end Tokens

end Tokenizer

end PipeQuery
