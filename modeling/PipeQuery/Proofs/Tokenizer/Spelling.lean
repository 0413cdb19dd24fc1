-- SUMMARY: A token whose kind stands for one word or mark has no other text, up to case in words.
import PipeQuery.Proofs.Recognizer.Word
import PipeQuery.Proofs.Tokenizer.Run

/-! # Spellings

The vocabulary lists the literal names of kinds, and the rule tables say what the lexer reads.
They are two tables, and agree: whatever rule emits a kind with a literal name, in whatever mode,
reads the text between the quotes of that name and nothing else. -/

namespace PipeQuery

/-! ## Vocabulary -/

namespace TokenKind

/-- What stands between the quotes of a literal name. -/
def unquoted (name : String) : String :=
  String.ofList (name.toList.drop 1).dropLast

/-- The word or mark that a kind stands for. Three kinds have one and no literal name. -/
def written? : TokenKind → Option String
  | .command .match_ | .clause .matchOperator => some "match"
  | .punctuation .openingBracket => some "["
  | k => k.literalName?.map unquoted

/-- What reads the kinds that stand for a word or mark. Only words may be in capitals. -/
def reader? (k : TokenKind) : Option Recognizer :=
  k.written?.map fun word =>
    if k.isKeyword then .keyword word.toList else .literal word.toList

variable {k : TokenKind}

/-- A kind with a literal name stands for what that name quotes. -/
theorem written?_of_literalName? {name : String} (h : k.literalName? = some name) :
    k.written? = some (unquoted name) := by
  have hlisted : k.written? = k.literalName?.map unquoted := by
    cases k with
    | command c => cases c <;> first | rfl | exact absurd h nofun
    | clause w => cases w <;> first | rfl | exact absurd h nofun
    | punctuation p => cases p <;> first | rfl | exact absurd h nofun
    | _ => rfl
  rw [hlisted, h, Option.map_some]

/-- Literal names are in quotes. -/
theorem quoted_literalName? {name : String} (h : k.literalName? = some name) :
    name = "'" ++ unquoted name ++ "'" := by
  have hquoted : ∀ name ∈ k.literalName?, name = "'" ++ unquoted name ++ "'" := by
    cases k with
    | command c => cases c <;> decide
    | clause w => cases w <;> decide
    | comparison o => cases o <;> decide
    | arithmetic o => cases o <;> decide
    | punctuation p => cases p <;> decide
    | assign | castOp | param => decide
    | _ => exact fun _ hname => absurd hname nofun
  exact hquoted name h

/-- Every keyword and operator stands for a word or mark. -/
theorem exists_written (h : k.isKeyword = true ∨ k.isOperator = true) :
    ∃ word, k.written? = some word := by
  cases k with
  | command c => cases c <;> exact ⟨_, rfl⟩
  | clause w => cases w <;> exact ⟨_, rfl⟩
  | comparison | arithmetic | assign | castOp => exact ⟨_, rfl⟩
  | _ => exact absurd h (by simp [isKeyword, isOperator])

end TokenKind

/-- No rule that emits a kind with a word or mark reads anything else. -/
theorem Mode.reader_of_mem_rules (mode : Mode) :
    ∀ rule ∈ mode.rules, ∀ r ∈ rule.kind.reader?, rule.recognizer = r := by
  cases mode <;> decide

/-! ## Tokens -/

/-- Whether a token is spelled as a word or mark. Only words may be in capitals. -/
structure Token.SpelledAs (t : Token) (word : String) : Prop where
  upToCase : Text.lower t.text.toList = Text.lower word.toList
  exactly : t.kind.isKeyword = false → t.text = word

namespace Tokenizer

/-- A token whose kind stands for a word or mark is spelled so. -/
theorem spelledAs_next (t : Tokenizer) {word : String} (h : t.next.1.kind.written? = some word) :
    t.next.1.SpelledAs word := by
  have hrest : t.rest ≠ [] := by
    intro hrest
    rw [next_of_rest_nil hrest] at h
    exact absurd h nofun
  have hknown : (choose t.mode t.rest).kind ≠ .unknown := by
    intro hunknown
    rw [kind_next hrest, hunknown] at h
    exact absurd h nofun
  obtain ⟨rule, hrule, hchoose⟩ := exists_rule_of_known hknown
  have hkind : t.next.1.kind = rule.kind := by rw [kind_next hrest, hchoose]
  have hpos : 0 < rule.recognizer.matchLength t.rest := by
    have hpos := choose_length_pos t.mode t.rest
    rwa [hchoose] at hpos
  have htext : t.next.1.text.toList = t.rest.take (rule.recognizer.matchLength t.rest) := by
    rw [next_of_rest_ne_nil hrest, String.toList_ofList, taken, hchoose]
  -- The rules of the modes say which recognizer reads the kind, and by which spelling.
  have hreader := Mode.reader_of_mem_rules t.mode rule hrule
  rw [hkind] at h
  rw [TokenKind.reader?, h, Option.map_some] at hreader
  -- Words are compared in lower case, marks as they are.
  cases hkeyword : rule.kind.isKeyword with
  | true =>
    rw [hreader _ (by rw [hkeyword]; rfl)] at htext hpos
    refine ⟨?_, fun hother => absurd (hkind ▸ hother) (by rw [hkeyword]; decide)⟩
    rw [htext]
    exact Scan.map_take_fixed Char.toLower hpos
  | false =>
    rw [hreader _ (by rw [hkeyword]; rfl)] at htext hpos
    have hsame : (t.next.1.text.toList).map id = word.toList.map id := by
      rw [htext]
      exact Scan.map_take_fixed id hpos
    rw [List.map_id, List.map_id] at hsame
    exact ⟨by rw [hsame], fun _ => String.toList_injective hsame⟩

/-- In a run, a token whose kind has a literal name is spelled as that name without its quotes:
letter for letter if it is a mark, and up to case if it is a word. So no keyword or operator,
whether it has a literal name or not, is ever read from any other text. -/
theorem spelled_as_vocabulary (maxDepth : Nat) (text : List Char) :
    ∀ t ∈ (start maxDepth text).tokens,
      (∀ name, t.kind.literalName? = some name →
        ∃ word, name = "'" ++ word ++ "'" ∧ t.SpelledAs word) ∧
      (t.kind.isKeyword = true ∨ t.kind.isOperator = true →
        ∃ word, t.kind.written? = some word ∧ t.SpelledAs word) := by
  intro t ht
  obtain ⟨s, hs, rfl⟩ := List.mem_map.1 ht
  obtain ⟨u, -, rfl⟩ := exists_later_of_mem_steps (t := start maxDepth text) rfl hs
  constructor
  · intro name hname
    exact ⟨_, TokenKind.quoted_literalName? hname,
      u.spelledAs_next (TokenKind.written?_of_literalName? hname)⟩
  · intro hfixed
    obtain ⟨word, hword⟩ := TokenKind.exists_written hfixed
    exact ⟨word, hword, u.spelledAs_next hword⟩

/-- A keyword that another one begins, some of its letters in capitals. -/
theorem spelled_as_vocabulary_of_nulls :
    let t : Token := ⟨.clause .nulls, "NuLLs", ⟨⟨5, 1, 6⟩, ⟨10, 1, 11⟩⟩, .default⟩
    t ∈ (start 8 "sort NuLLs".toList).tokens ∧ t.kind.literalName? = some "'nulls'" ∧
      t.kind.isKeyword = true ∧
      (∃ word, "'nulls'" = "'" ++ word ++ "'" ∧ t.SpelledAs word) ∧
      ∃ word, t.kind.written? = some word ∧ t.SpelledAs word := by
  intro t
  have hmem : t ∈ (start 8 "sort NuLLs".toList).tokens := by decide +kernel
  have hname : t.kind.literalName? = some "'nulls'" := by decide
  obtain ⟨hlisted, hfixed⟩ := spelled_as_vocabulary 8 "sort NuLLs".toList t hmem
  exact ⟨hmem, hname, rfl, hlisted _ hname, hfixed (.inl rfl)⟩

end Tokenizer

end PipeQuery
