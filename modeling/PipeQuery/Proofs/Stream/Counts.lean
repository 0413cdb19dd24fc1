-- SUMMARY: Every token is in one class, so the counts by class add up; whitespace and comments are never more than all tokens.
import Mathlib.Algebra.BigOperators.Group.List.Basic
import Mathlib.Algebra.GroupWithZero.Nat
import PipeQuery.Stream.Basic
import PipeQuery.Stream.Counts

/-! # Counts by Class -/

namespace PipeQuery

/-! ## Classes -/

def TokenClass.all : List TokenClass :=
  [.keyword, .operator, .punctuation, .literal, .identifier, .parameter, .comment, .whitespace,
    .special]

namespace TokenKind

variable (k : TokenKind)

/-- The kinds that are hidden by default are those of two classes. -/
theorem isHiddenByDefault_eq :
    k.isHiddenByDefault = (k.tokenClass == .whitespace || k.tokenClass == .comment) := by
  cases k with
  | trivia mode kind => cases kind <;> rfl
  | _ => rfl

theorem tokenClass_special_iff :
    k.tokenClass = .special ↔ k = .eof ∨ k = .unknown ∨ k = .unknownCommand := by
  cases k with
  | trivia mode kind => cases kind <;> simp [tokenClass]
  | _ => simp [tokenClass]

end TokenKind

namespace TokenCounts

/-- How many tokens belong to a class. -/
def inClass (tokens : List Token) (c : TokenClass) : Nat :=
  tokens.countP (·.kind.tokenClass == c)

/-! ## Counting -/

theorem count_eq (c : TokenCounts) (t : Token) :
    c.count t =
      { total := c.total + 1
        keywords := c.keywords + if t.kind.tokenClass == .keyword then 1 else 0
        identifiers := c.identifiers + if t.kind.tokenClass == .identifier then 1 else 0
        literals := c.literals + if t.kind.tokenClass == .literal then 1 else 0
        operators := c.operators + if t.kind.tokenClass == .operator then 1 else 0
        punctuation := c.punctuation + if t.kind.tokenClass == .punctuation then 1 else 0
        parameters := c.parameters + if t.kind.tokenClass == .parameter then 1 else 0
        comments := c.comments + if t.kind.tokenClass == .comment then 1 else 0
        whitespace := c.whitespace + if t.kind.tokenClass == .whitespace then 1 else 0
        unknown := c.unknown + if t.isUnknown then 1 else 0 } := by
  unfold count
  cases hunknown : t.isUnknown with
  | true =>
    -- Unknown input is in no class, so that passing over the classes loses nothing.
    have hkind : t.kind = .unknown := beq_iff_eq.1 hunknown
    rw [hkind]
    rfl
  | false => cases t.kind.tokenClass <;> rfl

theorem foldl_count (tokens : List Token) (c : TokenCounts) :
    tokens.foldl count c =
      { total := c.total + tokens.length
        keywords := c.keywords + inClass tokens .keyword
        identifiers := c.identifiers + inClass tokens .identifier
        literals := c.literals + inClass tokens .literal
        operators := c.operators + inClass tokens .operator
        punctuation := c.punctuation + inClass tokens .punctuation
        parameters := c.parameters + inClass tokens .parameter
        comments := c.comments + inClass tokens .comment
        whitespace := c.whitespace + inClass tokens .whitespace
        unknown := c.unknown + tokens.countP Token.isUnknown } := by
  induction tokens generalizing c with
  | nil => rfl
  | cons t tokens ih =>
    rw [List.foldl_cons, ih, count_eq]
    simp only [inClass, List.countP_cons, List.length_cons, Nat.add_assoc, Nat.add_comm 1,
      Nat.add_comm (ite _ _ _)]

variable (tokens : List Token)

/-- The end of input is in no class with a count. -/
theorem inClass_filter {c : TokenClass} (hc : c ≠ .special) :
    inClass (tokens.filter (!·.isEof)) c = inClass tokens c := by
  rw [inClass, List.countP_filter, inClass]
  refine List.countP_congr fun t _ => ?_
  rw [Bool.and_eq_true, beq_iff_eq, Bool.not_eq_true']
  refine and_iff_left_of_imp fun hclass => ?_
  refine Bool.eq_false_iff.2 fun heof => hc ?_
  rw [← hclass, beq_iff_eq.1 heof]
  rfl

/-- The loop counts class by class, and leaves out the end of input. -/
theorem ofTokens_eq :
    ofTokens tokens =
      { total := tokens.countP (!·.isEof)
        keywords := inClass tokens .keyword
        identifiers := inClass tokens .identifier
        literals := inClass tokens .literal
        operators := inClass tokens .operator
        punctuation := inClass tokens .punctuation
        parameters := inClass tokens .parameter
        comments := inClass tokens .comment
        whitespace := inClass tokens .whitespace
        unknown := tokens.countP Token.isUnknown } := by
  have hunknown : (tokens.filter (!·.isEof)).countP Token.isUnknown =
      tokens.countP Token.isUnknown := by
    rw [List.countP_filter]
    refine List.countP_congr fun t _ => ?_
    rw [Bool.and_eq_true, Bool.not_eq_true']
    refine and_iff_left_of_imp fun hunknown => ?_
    rw [Token.isEof, beq_iff_eq.1 hunknown]
    rfl
  rw [ofTokens, foldl_count, hunknown, ← List.countP_eq_length_filter]
  simp (disch := decide) only [zero, Nat.zero_add, inClass_filter]

theorem total_ofTokens : (ofTokens tokens).total = tokens.countP (!·.isEof) := by
  rw [ofTokens_eq]

/-! ## Sums -/

/-- Tokens of some sort are counted class by class. -/
theorem countP_eq_sum_classes (p : Token → Bool) :
    tokens.countP p =
      (TokenClass.all.map fun c => tokens.countP fun t => p t && t.kind.tokenClass == c).sum := by
  induction tokens with
  | nil => rfl
  | cons t tokens ih =>
    have hone : (TokenClass.all.map fun c => if t.kind.tokenClass == c then 1 else 0).sum = 1 := by
      cases t.kind.tokenClass <;> rfl
    cases hp : p t with
    | false => simpa [List.countP_cons, hp] using ih
    | true =>
      simp only [List.countP_cons, hp, ih, if_true, Bool.true_and, List.sum_map_add, hone]

/-- Hidden kinds are counted as whitespace or as comments. -/
theorem countP_isHiddenByDefault :
    tokens.countP (·.kind.isHiddenByDefault) =
      inClass tokens .whitespace + inClass tokens .comment := by
  unfold inClass
  induction tokens with
  | nil => rfl
  | cons t tokens ih =>
    simp only [List.countP_cons, ih, t.kind.isHiddenByDefault_eq]
    cases t.kind.tokenClass <;> simp <;> omega

/-- The counts of hidden classes can be taken from the total. -/
theorem hidden_le_total :
    (ofTokens tokens).whitespace + (ofTokens tokens).comments ≤ (ofTokens tokens).total := by
  rw [ofTokens_eq]
  have hmono : tokens.countP (·.kind.isHiddenByDefault) ≤ tokens.countP (!·.isEof) := by
    refine List.countP_mono_left fun t _ hhidden => ?_
    cases hkind : t.kind with
    | eof =>
      rw [hkind] at hhidden
      exact absurd hhidden (by decide)
    | _ => simp [Token.isEof, hkind]
  rwa [countP_isHiddenByDefault] at hmono

end TokenCounts

/-! ## Streams -/

def TokenStream.counts (s : TokenStream) : TokenCounts :=
  .ofTokens s.tokens

end PipeQuery
