-- SUMMARY: Lexer rules: what a rule matches, which token it emits, and what it does to the mode stack.
import PipeQuery.Recognizer.Match
import PipeQuery.Token.Channel
import PipeQuery.Token.Kind

/-! # Rules -/

namespace PipeQuery

/-- A lexer rule. -/
structure Rule where
  name : String
  recognizer : Recognizer
  kind : TokenKind
  channel : Channel
  /-- What happens to the mode stack after the token, in order. -/
  actions : List ModeAction
  deriving DecidableEq, Repr

namespace Rule

/-! ## Building -/

/-- A rule whose tokens go to parsers. -/
def visible (name : String) (recognizer : Recognizer) (kind : TokenKind)
    (actions : List ModeAction) : Rule :=
  { name, recognizer, kind, channel := .default, actions }

/-- The rule of a word, in any case. -/
def word (name text : String) (kind : TokenKind) (actions : List ModeAction) : Rule :=
  visible name (.keyword text.toList) kind actions

/-- The rule of an operator or a mark. -/
def sign (name text : String) (kind : TokenKind) (actions : List ModeAction) : Rule :=
  visible name (.literal text.toList) kind actions

/-- What a trivia kind matches. -/
def triviaRecognizer : Trivia → Recognizer
  | .lineComment => .lineComment
  | .blockComment => .blockComment
  | .whitespace => .whitespace

/-- The rule of a mode's trivia. Its tokens are hidden and its name is theirs. -/
def trivia (mode : Mode) (kind : Trivia) : Rule :=
  { name := (TokenKind.trivia mode kind).name
    recognizer := triviaRecognizer kind
    kind := .trivia mode kind
    channel := .hidden
    actions := [] }

end Rule

/-! ## Choosing -/

/-- Keeps the better of a candidate and the next rule: the longer match, or the
earlier rule if both are equally long. -/
def Rule.better (cs : List Char) (best : Option (Rule × Nat)) (rule : Rule) :
    Option (Rule × Nat) :=
  let n := rule.recognizer.matchLength cs
  if n = 0 then best
  else
    match best with
    | none => some (rule, n)
    | some (_, m) => if m < n then some (rule, n) else best

/-- The rule with the longest match and its length; of equally long matches the
rule that is declared first. None if no rule matches. -/
def longestMatch (rules : List Rule) (cs : List Char) : Option (Rule × Nat) :=
  rules.foldl (Rule.better cs) none

/-- A chosen match is one of a rule and takes some character. -/
def Rule.Matches (rules : List Rule) (cs : List Char) (choice : Rule × Nat) : Prop :=
  choice.1 ∈ rules ∧ choice.1.recognizer.matchLength cs = choice.2 ∧ 0 < choice.2

theorem Rule.better_none_iff {cs : List Char} {best : Option (Rule × Nat)} {rule : Rule} :
    Rule.better cs best rule = none ↔ best = none ∧ rule.recognizer.matchLength cs = 0 := by
  unfold Rule.better
  cases best with
  | none => by_cases h : rule.recognizer.matchLength cs = 0 <;> simp [h]
  | some choice =>
    obtain ⟨r, m⟩ := choice
    by_cases h : rule.recognizer.matchLength cs = 0
    · simp [h]
    · simp only [h, if_false]
      split <;> simp

/-- No rule is chosen exactly if no rule matches. -/
theorem longestMatch_eq_none_iff {rules : List Rule} {cs : List Char} :
    longestMatch rules cs = none ↔ ∀ r ∈ rules, r.recognizer.matchLength cs = 0 := by
  suffices h : ∀ best, rules.foldl (Rule.better cs) best = none ↔
      best = none ∧ ∀ r ∈ rules, r.recognizer.matchLength cs = 0 by
    simpa [longestMatch] using h none
  intro best
  induction rules generalizing best with
  | nil => simp
  | cons r rules ih => simp [ih, Rule.better_none_iff, and_assoc]

theorem Rule.matches_of_better {rules : List Rule} {cs : List Char} {best : Option (Rule × Nat)}
    {rule : Rule} {choice : Rule × Nat} (mem : rule ∈ rules)
    (hbest : ∀ c, best = some c → Rule.Matches rules cs c)
    (h : Rule.better cs best rule = some choice) : Rule.Matches rules cs choice := by
  by_cases hn : rule.recognizer.matchLength cs = 0
  · exact hbest choice (by simpa [Rule.better, hn] using h)
  · have hrule : Rule.Matches rules cs (rule, rule.recognizer.matchLength cs) :=
      ⟨mem, rfl, Nat.pos_of_ne_zero hn⟩
    cases best with
    | none =>
      simp only [Rule.better, hn, if_false, Option.some.injEq] at h
      exact h ▸ hrule
    | some c =>
      simp only [Rule.better, hn, if_false] at h
      split at h
      · simp only [Option.some.injEq] at h
        exact h ▸ hrule
      · exact hbest choice h

theorem longestMatch_matches {rules : List Rule} {cs : List Char} {choice : Rule × Nat}
    (h : longestMatch rules cs = some choice) : Rule.Matches rules cs choice := by
  suffices go : ∀ (rest : List Rule) (best : Option (Rule × Nat)), (∀ r ∈ rest, r ∈ rules) →
      (∀ c, best = some c → Rule.Matches rules cs c) →
      rest.foldl (Rule.better cs) best = some choice → Rule.Matches rules cs choice by
    exact go rules none (fun _ hr => hr) (by simp) h
  intro rest
  induction rest with
  | nil => exact fun best _ hbest h => hbest choice h
  | cons r rest ih =>
    intro best mem hbest h
    exact ih _ (fun r' hr' => mem r' (by simp [hr']))
      (fun c hc => Rule.matches_of_better (mem r (by simp)) hbest hc) h

end PipeQuery
