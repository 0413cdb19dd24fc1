-- SUMMARY: A text that begins with a letter is read as the longest word, and as a keyword if that word spells one.
import Mathlib.Data.List.Find
import PipeQuery.Proofs.Recognizer.Word
import PipeQuery.Proofs.Tokenizer.Run

/-! # Words and Keywords

The race of all rules for the longest match comes down to one scan and a look-up. Some rule
for words takes the longest word, and no keyword outruns it. A keyword takes as much only if
the word spells it, and then it wins, since keywords are declared before the rules for words. -/

namespace PipeQuery

namespace Mode

/-! ## Tables -/

/-- The rules of a mode that take one word only. -/
def keywords (mode : Mode) : List Rule :=
  mode.rules.filter (·.recognizer.keyword?.isSome)

/-- The rules of a mode that take any word. -/
def words (mode : Mode) : List Rule :=
  mode.rules.filter (·.recognizer.takesWords)

/-- The modes that have both. -/
example : Mode.all.filter (fun mode => mode.keywords ≠ [] ∧ mode.words ≠ []) =
    [.default, .expression, .from_, .rename, .enrich, .enrichField, .lookup, .closingMetrics] := by
  decide

variable {mode : Mode}

/-- Keywords are declared before words, but for the one that may stand behind metrics sources. -/
theorem keywords_before_words (h : mode ≠ .closingMetrics) :
    mode.rules.Pairwise fun first second =>
      first.recognizer.takesWords = true → second.recognizer.keyword?.isSome = false := by
  cases mode <;> first | exact absurd rfl h | decide

theorem takes_or_sparesLetters (h : mode.words ≠ []) :
    ∀ rule ∈ mode.rules, rule.recognizer.keyword?.isSome = true ∨
      rule.recognizer.takesWords = true ∨ rule.recognizer.sparesLetters = true := by
  cases mode <;> revert h <;> decide

/-- Keywords are words. -/
theorem isWord_of_keyword : ∀ rule ∈ mode.rules, ∀ word ∈ rule.recognizer.keyword?,
    word.all CharClass.isWord = true := by
  cases mode <;> decide

/-- No two keywords of a mode are spelled alike. -/
theorem eq_of_spelled_alike : ∀ first ∈ mode.keywords, ∀ second ∈ mode.keywords,
    first.recognizer.keyword?.map Text.lower = second.recognizer.keyword?.map Text.lower →
      first = second := by
  cases mode <;> decide +kernel

/-- No other rule of a mode emits what a keyword emits. -/
theorem eq_of_kind_of_keyword : ∀ keyword ∈ mode.keywords, ∀ rule ∈ mode.rules,
    rule.kind = keyword.kind → rule = keyword := by
  cases mode <;> decide +kernel

/-! ## Look-up -/

/-- The rule for a word: the keyword it spells, or else the first rule that takes it whole. -/
def wordRule? (mode : Mode) (word : List Char) : Option Rule :=
  (mode.keywords.find? (·.recognizer.isSpelled word)).or
    (mode.words.find? (·.recognizer.matchLength word == word.length))

/-- Whether a text is the longest beginning of another one that some rule for words takes. -/
structure LongestWord (mode : Mode) (cs word : List Char) : Prop where
  begins : word <+: cs
  taken : ∃ rule ∈ mode.words, rule.recognizer.matchLength cs = word.length
  longest : ∀ rule ∈ mode.words, rule.recognizer.matchLength cs ≤ word.length

theorem mem_of_wordRule? {word : List Char} {rule : Rule} (h : mode.wordRule? word = some rule) :
    (rule ∈ mode.keywords ∧ rule.recognizer.isSpelled word = true) ∨ rule ∈ mode.words := by
  rcases Option.or_eq_some_iff.1 h with hfind | ⟨-, hfind⟩
  · have hspelled := List.find?_some (p := fun rule : Rule => rule.recognizer.isSpelled word) hfind
    exact .inl ⟨List.mem_of_find?_eq_some hfind, hspelled⟩
  · exact .inr (List.mem_of_find?_eq_some hfind)

/-- A word is looked up as a keyword exactly if it spells that keyword. -/
theorem kind_of_wordRule?_iff {word : List Char} {rule : Rule}
    (h : mode.wordRule? word = some rule) {keyword : Rule} (hkeyword : keyword ∈ mode.keywords) :
    rule.kind = keyword.kind ↔ keyword.recognizer.isSpelled word = true := by
  constructor
  · intro hkind
    rcases mem_of_wordRule? h with ⟨hmem, hspelled⟩ | hmem
    · have hsame := eq_of_kind_of_keyword keyword hkeyword rule (List.mem_of_mem_filter hmem) hkind
      rwa [← hsame]
    · obtain rfl := eq_of_kind_of_keyword keyword hkeyword rule (List.mem_of_mem_filter hmem) hkind
      have hone := (List.mem_filter.1 hkeyword).2
      rw [Recognizer.keyword?_eq_none (List.mem_filter.1 hmem).2] at hone
      exact absurd hone nofun
  · intro hspelled
    rcases Option.or_eq_some_iff.1 h with hfind | ⟨hnone, -⟩
    · have hmem := List.mem_of_find?_eq_some hfind
      have hfound := List.find?_some (p := fun rule : Rule => rule.recognizer.isSpelled word) hfind
      have halike : rule.recognizer.keyword?.map Text.lower =
          keyword.recognizer.keyword?.map Text.lower :=
        (beq_iff_eq.1 hfound).trans (beq_iff_eq.1 hspelled).symm
      rw [eq_of_spelled_alike rule hmem keyword hkeyword halike]
    · exact absurd hspelled (List.find?_eq_none.1 hnone keyword hkeyword)

end Mode

/-! ## Searches -/

/-- A search that finds keywords or words only is one among the keywords, and then one among
the words, if no keyword is declared behind a word. -/
theorem find?_eq_or {rules : List Rule} {p : Rule → Bool}
    (horder : rules.Pairwise fun first second =>
      first.recognizer.takesWords = true → second.recognizer.keyword?.isSome = false)
    (hp : ∀ rule ∈ rules, p rule = true →
      rule.recognizer.keyword?.isSome = true ∨ rule.recognizer.takesWords = true) :
    rules.find? p = ((rules.filter (·.recognizer.keyword?.isSome)).find? p).or
      ((rules.filter (·.recognizer.takesWords)).find? p) := by
  induction rules with
  | nil => rfl
  | cons rule rules ih =>
    obtain ⟨hbehind, horder⟩ := List.pairwise_cons.1 horder
    obtain ⟨hrule, hp⟩ := List.forall_mem_cons.1 hp
    cases hfound : p rule with
    | false =>
      rw [List.find?_cons_of_neg (by rw [hfound]; exact nofun), ih horder hp]
      simp [List.find?_filter, hfound]
    | true =>
      rw [List.find?_cons_of_pos hfound]
      -- A rule for any word stands behind all keywords, so that none is passed over.
      cases hkeyword : rule.recognizer.keyword?.isSome with
      | true => simp [hkeyword, hfound]
      | false =>
        have hword : rule.recognizer.takesWords = true :=
          (hrule hfound).resolve_left (by rw [hkeyword]; exact nofun)
        have hnone : rules.filter (·.recognizer.keyword?.isSome) = [] := by
          rw [List.filter_eq_nil_iff]
          intro r hr
          rw [hbehind r hr hword]
          exact nofun
        simp [hkeyword, hword, hfound, hnone]

theorem le_length_of_longestMatch {rules : List Rule} {cs : List Char} {best : Rule} {n : Nat}
    (h : longestMatch rules cs = some (best, n)) : n ≤ cs.length := by
  have hlength : best.recognizer.matchLength cs = n := (longestMatch_matches h).2.1
  exact hlength ▸ best.recognizer.matchLength_le_length cs

namespace Tokenizer

section Words

variable {mode : Mode} (hwords : mode.words ≠ []) (hmode : mode ≠ .closingMetrics)
variable {c : Char} (hletter : c.isAlpha = true) {cs : List Char}
include hwords hletter

/-- Some rule for words takes as much as any rule does. -/
theorem exists_word_of_longestMatch {best : Rule} {n : Nat}
    (hbest : longestMatch mode.rules (c :: cs) = some (best, n)) :
    ∃ rule ∈ mode.words, rule.recognizer.matchLength (c :: cs) = n := by
  obtain ⟨hmem, hlength, hpos⟩ := longestMatch_matches hbest
  have hlength : best.recognizer.matchLength (c :: cs) = n := hlength
  rcases Mode.takes_or_sparesLetters hwords best hmem with hkeyword | hword | hspares
  · -- A keyword takes word characters, and so any rule for words takes as much.
    obtain ⟨word, hword⟩ := Option.isSome_iff_exists.1 hkeyword
    obtain ⟨rule, hrule⟩ := List.exists_mem_of_ne_nil _ hwords
    obtain ⟨hmem', htakes⟩ := List.mem_filter.1 hrule
    refine ⟨rule, hrule, Nat.le_antisymm (matchLength_le_of_longestMatch hbest hmem') ?_⟩
    rw [← hlength]
    exact Nat.le_trans
      (Recognizer.matchLength_le_of_keyword hword (Mode.isWord_of_keyword best hmem word hword))
      (Recognizer.leading_le_matchLength hletter cs htakes)
  · exact ⟨best, List.mem_filter.2 ⟨hmem, hword⟩, hlength⟩
  · rw [Recognizer.matchLength_eq_zero_of_letter hletter cs hspares] at hlength
    have hpos : 0 < n := hpos
    omega

include hmode

/-- The rule that is chosen is the one that is looked up. -/
theorem wordRule?_of_longestMatch {best : Rule} {n : Nat}
    (hbest : longestMatch mode.rules (c :: cs) = some (best, n)) :
    mode.wordRule? ((c :: cs).take n) = some best := by
  have hpos : 0 < n := (longestMatch_matches hbest).2.2
  have hn := le_length_of_longestMatch hbest
  have hlength : ((c :: cs).take n).length = n := List.length_take_of_le hn
  -- The text begins with a letter, so whatever takes as much is a rule for words.
  have htaking : ∀ rule ∈ mode.rules, (rule.recognizer.matchLength (c :: cs) == n) = true →
      rule.recognizer.keyword?.isSome = true ∨ rule.recognizer.takesWords = true := by
    intro rule hrule htaken
    rcases Mode.takes_or_sparesLetters hwords rule hrule with hkeyword | hword | hspares
    · exact .inl hkeyword
    · exact .inr hword
    · have hzero := Recognizer.matchLength_eq_zero_of_letter hletter cs hspares
      rw [beq_iff_eq, hzero] at htaken
      omega
  have hfind := find?_of_longestMatch hbest
  rw [find?_eq_or (Mode.keywords_before_words hmode) htaking] at hfind
  have hkeywords : mode.keywords.find? (·.recognizer.isSpelled ((c :: cs).take n)) =
      mode.keywords.find? (·.recognizer.matchLength (c :: cs) == n) := by
    refine List.find?_congr ?_
    intro rule hrule
    obtain ⟨word, hword⟩ := Option.isSome_iff_exists.1 (List.mem_filter.1 hrule).2
    rw [Bool.eq_iff_iff, beq_iff_eq]
    exact (Recognizer.matchLength_eq_iff_of_keyword hword hpos hn).symm
  -- A rule for any word takes as much of the text when it is cut behind that.
  have hwhole : mode.words.find?
      (·.recognizer.matchLength ((c :: cs).take n) == ((c :: cs).take n).length) =
        mode.words.find? (·.recognizer.matchLength (c :: cs) == n) := by
    refine List.find?_congr ?_
    intro rule hrule
    obtain ⟨hmem, htakes⟩ := List.mem_filter.1 hrule
    have hsteady := Recognizer.steady_of_takesWords htakes
    rw [Bool.eq_iff_iff, beq_iff_eq, beq_iff_eq, hlength]
    constructor
    · intro htaken
      have hle := hsteady.le_of_prefix (List.take_prefix n (c :: cs))
      exact Nat.le_antisymm (matchLength_le_of_longestMatch hbest hmem) (htaken ▸ hle)
    · rintro rfl
      exact hsteady.take_self (c :: cs)
  rw [Mode.wordRule?, hkeywords, hwhole]
  exact hfind

/-- The choice is the longest word, and what the rule says that is looked up for it. -/
theorem choose_word (cs : List Char) : ∃ word rule, mode.LongestWord (c :: cs) word ∧
    mode.wordRule? word = some rule ∧
      choose mode (c :: cs) = ⟨rule.kind, rule.channel, word.length, rule.actions⟩ := by
  rcases choose_cases mode (c :: cs) with ⟨best, n, hbest, hchoose⟩ | ⟨hnone, -⟩
  · obtain ⟨longest, hlongest, htaken⟩ := exists_word_of_longestMatch hwords hletter hbest
    have hlength : ((c :: cs).take n).length = n :=
      List.length_take_of_le (le_length_of_longestMatch hbest)
    refine ⟨(c :: cs).take n, best, ?_, wordRule?_of_longestMatch hwords hmode hletter hbest,
      by rw [hlength, hchoose]⟩
    refine { begins := List.take_prefix n _, taken := ⟨longest, hlongest, ?_⟩, longest := ?_ }
    · rw [hlength, htaken]
    · intro rule hrule
      rw [hlength]
      exact matchLength_le_of_longestMatch hbest (List.mem_of_mem_filter hrule)
  · obtain ⟨rule, hrule⟩ := List.exists_mem_of_ne_nil _ hwords
    obtain ⟨hmem, htakes⟩ := List.mem_filter.1 hrule
    have hword := Scan.leading_cons_of_pos (CharClass.isWord_of_isAlpha hletter) cs
    have hle := Recognizer.leading_le_matchLength hletter cs htakes
    rw [longestMatch_eq_none_iff.1 hnone rule hmem, hword] at hle
    exact absurd hle (Nat.not_succ_le_zero _)

end Words

/-- Where a mode has rules for words, a text that begins with a letter gives the longest word as
the next token, as the keyword it spells or else by the first rule that takes it. So a keyword
is recognized exactly as a whole word. -/
theorem next_word {t : Tokenizer} (hwords : t.mode.words ≠ []) (hmode : t.mode ≠ .closingMetrics)
    {c : Char} {cs : List Char} (hrest : t.rest = c :: cs) (hletter : c.isAlpha = true) :
    ∃ word, t.mode.LongestWord t.rest word ∧
      t.next.1.text = String.ofList word ∧
      (t.mode.wordRule? word).map (·.kind) = some t.next.1.kind ∧
      ∀ keyword ∈ t.mode.keywords,
        t.next.1.kind = keyword.kind ↔ keyword.recognizer.isSpelled word = true := by
  obtain ⟨word, rule, hlongest, hrule, hchoose⟩ := choose_word hwords hmode hletter cs
  have hne : t.rest ≠ [] := by
    rw [hrest]
    exact List.cons_ne_nil c cs
  have hkind : t.next.1.kind = rule.kind := by rw [kind_next hne, hrest, hchoose]
  rw [← hrest] at hlongest hchoose
  refine ⟨word, hlongest, ?_, by rw [hrule, hkind]; rfl, ?_⟩
  · rw [next_of_rest_ne_nil hne, taken, hchoose, ← List.prefix_iff_eq_take.1 hlongest.begins]
  · intro keyword hkeyword
    rw [hkind]
    exact Mode.kind_of_wordRule?_iff hrule hkeyword

/-- A keyword that another one begins, written with a capital, before a comma. -/
theorem next_word_of_nulls :
    ∃ t, Reachable 8 "row Nulls,".toList t ∧ t.mode.words ≠ [] ∧ t.mode ≠ .closingMetrics ∧
      t.rest = 'N' :: "ulls,".toList ∧ 'N'.isAlpha = true ∧
      ∃ word, t.mode.LongestWord t.rest word ∧ t.next.1.text = String.ofList word ∧
        (t.mode.wordRule? word).map (·.kind) = some (.clause .nulls) ∧
        ∀ keyword ∈ t.mode.keywords,
          .clause .nulls = keyword.kind ↔ keyword.recognizer.isSpelled word = true := by
  have hmode : (start 8 "row Nulls,".toList).next.2.next.2.mode = .expression := by decide +kernel
  have hwords : (start 8 "row Nulls,".toList).next.2.next.2.mode.words ≠ [] := by
    rw [hmode]
    decide
  have hother : (start 8 "row Nulls,".toList).next.2.next.2.mode ≠ .closingMetrics := by
    rw [hmode]
    decide
  have hrest : (start 8 "row Nulls,".toList).next.2.next.2.rest = 'N' :: "ulls,".toList := by
    decide +kernel
  have hkind : (start 8 "row Nulls,".toList).next.2.next.2.next.1.kind = .clause .nulls := by
    decide +kernel
  obtain ⟨word, hlongest, htext, hrule, hkeywords⟩ := next_word hwords hother hrest (by decide)
  rw [hkind] at hrule hkeywords
  exact ⟨_, .next (.next .start), hwords, hother, hrest, by decide, word, hlongest, htext, hrule,
    hkeywords⟩

end Tokenizer

end PipeQuery
