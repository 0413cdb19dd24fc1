-- SUMMARY: Names between backquotes and field patterns are the longest beginnings in their languages, however else a pattern may be split into parts.
import PipeQuery.Proofs.Recognizer.Language
import PipeQuery.Proofs.Recognizer.OpenName

/-! # Names

A backquote may close a name between backquotes, be half of an escape, or open the next part
of a field pattern. Two parts that could be read as one make up one part, so nothing is lost
by taking the longest part first. -/

open scoped Computability

namespace PipeQuery

namespace Grammar

/-! ## Languages -/

/-- One opening character with any number of others, or an underscore or at sign with at least
one. -/
def word (opens body : Char → Bool) : Language Char :=
  one opens * (one body)∗ + oneOf ['_', '@'] * plus (one body)

/-- A character between backquotes: any but a backquote, which is written twice. -/
def backquoted : Language Char :=
  noneOf ['\x60'] + exactly ['\x60', '\x60']

def quotedName : Language Char :=
  exactly ['\x60'] * (plus backquoted * exactly ['\x60'])

/-- A part of a field pattern without quotes. -/
def patternWord : Language Char :=
  word (fun c => c.isAlpha || c == '*') (fun c => c.isAlpha || c.isDigit || c == '_' || c == '*')

/-- A field pattern: parts with and without quotes. -/
def idPattern : Language Char :=
  plus (patternWord + quotedName)

variable {opens body : Char → Bool} {c : Char} {cs w : List Char}

theorem exists_cons_of_mem_word (h : w ∈ word opens body) : ∃ c cs, w = c :: cs := by
  rcases h with ⟨_, ⟨c, -, rfl⟩, v, -, rfl⟩ | ⟨_, ⟨c, -, rfl⟩, v, -, rfl⟩ <;> exact ⟨c, v, rfl⟩

theorem cons_mem_word :
    c :: cs ∈ word opens body ↔
      (opens c = true ∨ (c = '_' ∨ c = '@') ∧ cs ≠ []) ∧ ∀ d ∈ cs, body d = true := by
  have hmark : c ∈ ['_', '@'] ↔ c = '_' ∨ c = '@' := by simp
  rw [word, Language.mem_add, oneOf, cons_mem_one_mul, cons_mem_one_mul, mem_star_one,
    mem_plus_one, decide_eq_true_iff, hmark]
  tauto

theorem mem_quotedName :
    w ∈ quotedName ↔
      ∃ vs, vs ≠ [] ∧ (∀ v ∈ vs, v ∈ backquoted) ∧ w = '\x60' :: (vs.flatten ++ ['\x60']) := by
  rw [quotedName, mem_exactly_mul]
  constructor
  · rintro ⟨_, ⟨v, hv, _, rfl, rfl⟩, rfl⟩
    obtain ⟨vs, hne, hvs, rfl⟩ := mem_plus.1 hv
    exact ⟨vs, hne, hvs, rfl⟩
  · rintro ⟨vs, hne, hvs, rfl⟩
    exact ⟨_, Language.append_mem_mul (mem_plus.2 ⟨vs, hne, hvs, rfl⟩) rfl, rfl⟩

theorem length_flatten_pos {vs : List (List Char)} (hne : vs ≠ [])
    (hvs : ∀ v ∈ vs, v ∈ backquoted) : 0 < vs.flatten.length := by
  obtain ⟨v, vs, rfl⟩ := List.exists_cons_of_ne_nil hne
  rw [List.flatten_cons, List.length_append]
  rcases hvs v List.mem_cons_self with ⟨c, -, rfl⟩ | rfl <;> exact Nat.add_pos_left (Nat.succ_pos _) _

end Grammar

namespace Scan

open Grammar

/-! ## Words -/

theorem reads_word (opens body : Char → Bool) :
    Reads (Scan.word opens body) (Grammar.word opens body) where
  le_length := word_le_length opens body
  steady := steady_word opens body
  mem_iff w := by
    cases w with
    | nil => exact iff_of_false (fun h => nomatch exists_cons_of_mem_word h) fun h => h.1 rfl
    | cons c cs =>
      have hempty : leading body cs = cs.length → (leading body cs = 0 ↔ cs = []) := fun h => by
        rw [h, List.length_eq_zero_iff]
      rw [cons_mem_word, ← leading_eq_length_iff, Scan.word, List.length_cons]
      dsimp only
      -- A letter may stand alone, an opening mark may not.
      by_cases hopens : opens c = true
      · simp only [hopens, true_or, true_and, if_true, ne_eq, List.cons_ne_nil, not_false_eq_true]
        omega
      by_cases hmark : c = '_' ∨ c = '@'
      · rw [if_neg hopens, if_pos hmark]
        by_cases hnone : leading body cs = 0
        · rw [if_pos hnone]
          refine iff_of_false ?_ fun h => absurd h.2 (Nat.succ_ne_zero _).symm
          rintro ⟨hsome, hall⟩
          exact (hsome.resolve_left hopens).2 ((hempty hall).1 hnone)
        · rw [if_neg hnone]
          constructor
          · rintro ⟨-, hall⟩
            exact ⟨List.cons_ne_nil c cs, by omega⟩
          · rintro ⟨-, hall⟩
            have hall : leading body cs = cs.length := by omega
            exact ⟨.inr ⟨hmark, fun hnil => hnone ((hempty hall).2 hnil)⟩, hall⟩
      · rw [if_neg hopens, if_neg hmark]
        refine iff_of_false ?_ fun h => absurd h.2 (Nat.succ_ne_zero _).symm
        rintro ⟨hfirst, -⟩
        exact hfirst.elim hopens fun h => hmark h.1

/-! ## Names Between Backquotes -/

theorem quotedIdentifierFrom_flatten {vs : List (List Char)} (hvs : ∀ v ∈ vs, v ∈ backquoted)
    {behind : List Char} (hbehind : behind.head? ≠ some '\x60') {passed : Nat} (accepted : Nat)
    (h : 1 < passed + vs.flatten.length) :
    quotedIdentifierFrom passed accepted (vs.flatten ++ '\x60' :: behind) =
      passed + vs.flatten.length + 1 := by
  induction vs generalizing passed accepted with
  | nil =>
    have hpassed : 1 < passed := h
    rw [List.flatten_nil, List.nil_append, quotedIdentifierFrom, if_pos hpassed]
    · rfl
    · rintro ds rfl
      exact hbehind rfl
  | cons v vs ih =>
    obtain ⟨hv, hrest⟩ := List.forall_mem_cons.1 hvs
    rw [List.flatten_cons, List.length_append] at h ⊢
    -- A part is one character, or a backquote that is written twice.
    rcases hv with ⟨c, hc, rfl⟩ | rfl
    · have hne : c ≠ '\x60' := by simpa using hc
      rw [List.length_singleton] at h ⊢
      rw [List.append_assoc, List.singleton_append, quotedIdentifierFrom_of_ne hne,
        ih hrest accepted (by omega)]
      omega
    · have hpair : ['\x60', '\x60'].length = 2 := rfl
      rw [hpair] at h ⊢
      rw [List.append_assoc, List.cons_append, List.cons_append, List.nil_append,
        quotedIdentifierFrom, ih hrest _ (by omega)]
      omega

theorem exists_backquoted {passed accepted : Nat} {cs : List Char} (hle : accepted ≤ passed)
    (h : quotedIdentifierFrom passed accepted cs = passed + cs.length) :
    (cs = [] ∧ accepted = passed) ∨
      ∃ vs : List (List Char), (∀ v ∈ vs, v ∈ backquoted) ∧ cs = vs.flatten ++ ['\x60'] ∧
        1 < passed + vs.flatten.length := by
  fun_induction quotedIdentifierFrom passed accepted cs with
  | case1 passed accepted cs ih =>
    have haccepted : (if 1 < passed then passed + 1 else accepted) ≤ passed + 1 := by
      split <;> omega
    rw [List.length_cons, List.length_cons] at h
    -- The two backquotes are one more part of the name.
    rcases ih (by omega) (by omega) with ⟨-, heq⟩ | ⟨vs, hvs, rfl, hlength⟩
    · omega
    · refine .inr ⟨['\x60', '\x60'] :: vs, List.forall_mem_cons.2 ⟨.inr rfl, hvs⟩, rfl, ?_⟩
      rw [List.flatten_cons, List.length_append]
      exact Nat.lt_of_lt_of_eq hlength (Nat.add_assoc passed 2 _)
  | case2 passed accepted cs hlone hpassed =>
    rw [List.length_cons] at h
    obtain rfl : cs = [] := List.eq_nil_of_length_eq_zero (by omega)
    exact .inr ⟨[], List.forall_mem_nil _, rfl, hpassed⟩
  | case3 passed accepted cs hlone hpassed =>
    rw [List.length_cons] at h
    omega
  | case4 passed accepted c cs hpair hlone ih =>
    rw [List.length_cons] at h
    rcases ih (by omega) (by omega) with ⟨-, heq⟩ | ⟨vs, hvs, rfl, hlength⟩
    · omega
    · have hc : [c] ∈ backquoted := .inl ⟨c, by simpa using fun hc => hlone hc, rfl⟩
      refine .inr ⟨[c] :: vs, List.forall_mem_cons.2 ⟨hc, hvs⟩, rfl, ?_⟩
      rw [List.flatten_cons, List.length_append]
      exact Nat.lt_of_lt_of_eq hlength (Nat.add_assoc passed 1 _)
  | case5 passed accepted => exact .inl ⟨rfl, h⟩

theorem reads_quotedIdentifier : Reads quotedIdentifier quotedName where
  le_length := quotedIdentifier_le_length
  steady := steady_quotedIdentifier
  mem_iff w := by
    rw [mem_quotedName]
    constructor
    · rintro ⟨vs, hne, hvs, rfl⟩
      have hlength : 1 < 1 + vs.flatten.length :=
        Nat.lt_add_of_pos_right (length_flatten_pos hne hvs)
      have hend : ([] : List Char).head? ≠ some '\x60' :=
        (Option.some_ne_none '\x60').symm
      refine ⟨List.cons_ne_nil _ _, ?_⟩
      rw [quotedIdentifier, quotedIdentifierFrom_flatten hvs hend 0 hlength, List.length_cons,
        List.length_append, List.length_singleton]
      omega
    · rintro ⟨hne, hall⟩
      obtain ⟨cs, rfl⟩ := begins_of_quotedIdentifier_pos (hall ▸ List.length_pos_iff.2 hne)
      rw [quotedIdentifier, List.length_cons, Nat.add_comm] at hall
      -- The name does not end at its first backquote, which opens it.
      rcases exists_backquoted (Nat.zero_le 1) hall with ⟨-, heq⟩ | ⟨vs, hvs, rfl, hlength⟩
      · exact absurd heq Nat.zero_ne_one
      · refine ⟨vs, ?_, hvs, rfl⟩
        rintro rfl
        exact absurd hlength (Nat.lt_irrefl 1)

/-! ## Field Patterns -/

/-- A word that goes on behind its end goes on with the next character. -/
theorem exists_body_of_longer {opens body : Char → Bool} {w ds : List Char}
    (hw : w ∈ Grammar.word opens body) (h : w.length < Scan.word opens body (w ++ ds)) :
    ∃ d es, ds = d :: es ∧ body d = true := by
  obtain ⟨c, cs, rfl⟩ := exists_cons_of_mem_word hw
  have hle : Scan.word opens body (c :: cs ++ ds) ≤ 1 + leading body (cs ++ ds) := by
    rw [List.cons_append, Scan.word]
    dsimp only
    split_ifs <;> omega
  rw [leading_append_of_all (cons_mem_word.1 hw).2] at hle
  rw [List.length_cons] at h
  cases ds with
  | nil =>
    rw [leading_nil] at hle
    omega
  | cons d es => exact ⟨d, es, rfl, leading_pos_iff.1 (by omega : 0 < leading body (d :: es))⟩

/-- A name that goes on behind its end goes on with a backquote. -/
theorem exists_backquote_of_longer {w ds : List Char} (hw : w ∈ quotedName)
    (h : w.length < quotedIdentifier (w ++ ds)) : ∃ es, ds = '\x60' :: es := by
  by_contra hnone
  obtain ⟨vs, hne, hvs, rfl⟩ := mem_quotedName.1 hw
  have hend : ds.head? ≠ some '\x60' := by
    intro hhead
    exact hnone ⟨_, List.eq_cons_of_mem_head? hhead⟩
  have hlength : 1 < 1 + vs.flatten.length :=
    Nat.lt_add_of_pos_right (length_flatten_pos hne hvs)
  have hname : '\x60' :: (vs.flatten ++ ['\x60']) ++ ds =
      '\x60' :: (vs.flatten ++ '\x60' :: ds) := by simp
  rw [hname, quotedIdentifier, quotedIdentifierFrom_flatten hvs hend 0 hlength, List.length_cons,
    List.length_append, List.length_singleton] at h
  omega

theorem append_mem_patternWord {v es : List Char} {d : Char}
    (hv : v ∈ patternWord) (hw : d :: es ∈ patternWord)
    (hd : (d.isAlpha || d.isDigit || d == '_' || d == '*') = true) : v ++ d :: es ∈ patternWord := by
  obtain ⟨c, cs, rfl⟩ := exists_cons_of_mem_word hv
  obtain ⟨hfirst, hcs⟩ := cons_mem_word.1 hv
  refine cons_mem_word.2 ⟨hfirst.imp_right fun h => ⟨h.1, by simp⟩, ?_⟩
  exact List.forall_mem_append.2 ⟨hcs, List.forall_mem_cons.2 ⟨hd, (cons_mem_word.1 hw).2⟩⟩

theorem append_mem_quotedName {v w : List Char} (hv : v ∈ quotedName) (hw : w ∈ quotedName) :
    v ++ w ∈ quotedName := by
  obtain ⟨vs, hne, hvs, rfl⟩ := mem_quotedName.1 hv
  obtain ⟨ws, -, hws, rfl⟩ := mem_quotedName.1 hw
  refine mem_quotedName.2 ⟨vs ++ ['\x60', '\x60'] :: ws, List.append_ne_nil_of_left_ne_nil hne _,
    ?_, by simp⟩
  exact List.forall_mem_append.2 ⟨hvs, List.forall_mem_cons.2 ⟨.inr rfl, hws⟩⟩

theorem backquote_notMem_patternWord (cs : List Char) : '\x60' :: cs ∉ patternWord := by
  intro h
  have hfirst := (cons_mem_word.1 h).1
  simp at hfirst

/-- Where more than the first of two parts is taken at once, the two make up one part. -/
theorem patternPiece_merge {v w ds : List Char} (hv : v ∈ patternWord + quotedName)
    (hw : w ∈ patternWord + quotedName) (h : v.length < patternPiece (v ++ (w ++ ds))) :
    v ++ w ∈ patternWord + quotedName := by
  have hlonger := lt_max_iff.1 h
  -- Only a scanner of the same kind goes on behind the first part, and what it goes on with
  -- settles the kind of the second part.
  rcases hv with hv | hv
  · obtain ⟨c, cs, rfl⟩ := exists_cons_of_mem_word hv
    have hword : (c :: cs).length < unquotedPattern (c :: cs ++ (w ++ ds)) := by
      refine hlonger.resolve_right fun hname => ?_
      obtain ⟨body, hbody⟩ := begins_of_quotedIdentifier_pos (Nat.zero_lt_of_lt hname)
      obtain rfl : c = '\x60' := (List.cons.inj hbody).1
      exact backquote_notMem_patternWord cs hv
    obtain ⟨d, es, hd, hbody⟩ := exists_body_of_longer hv hword
    rcases hw with hw | hw
    · obtain ⟨e, w, rfl⟩ := exists_cons_of_mem_word hw
      obtain rfl : e = d := (List.cons.inj hd).1
      exact .inl (append_mem_patternWord hv hw hbody)
    · obtain ⟨ws, -, -, rfl⟩ := mem_quotedName.1 hw
      obtain rfl : '\x60' = d := (List.cons.inj hd).1
      exact absurd hbody (by decide)
  · have hname : v.length < quotedIdentifier (v ++ (w ++ ds)) := by
      refine hlonger.resolve_left fun hword => ?_
      obtain ⟨vs, -, -, rfl⟩ := mem_quotedName.1 hv
      exact absurd hword (Nat.not_lt_zero _)
    obtain ⟨es, hes⟩ := exists_backquote_of_longer hv hname
    rcases hw with hw | hw
    · obtain ⟨e, w, rfl⟩ := exists_cons_of_mem_word hw
      obtain rfl : e = '\x60' := (List.cons.inj hes).1
      exact absurd hw (backquote_notMem_patternWord w)
    · exact .inr (append_mem_quotedName hv hw)

theorem reads_idPattern : Reads Scan.idPattern Grammar.idPattern :=
  ((reads_word _ _).max reads_quotedIdentifier).pieces fun _ hv _ hw _ h =>
    patternPiece_merge hv hw h

end Scan

namespace Recognizer

open Grammar

/-- Names between backquotes and field patterns are the longest beginnings in their languages,
and no way to split a beginning into parts of a pattern leads farther than the longest parts
taken one after another. -/
theorem longestIn_names (input : List Char) :
    LongestIn quotedName input (quotedIdentifier.matchSize input) ∧
    LongestIn Grammar.idPattern input (idPattern.matchSize input) ∧
    ∀ parts : List (List Char), (∀ part ∈ parts, part ∈ patternWord + quotedName) →
      parts.flatten <+: input → Text.size parts.flatten ≤ idPattern.matchSize input := by
  have hname : Scan.Reads quotedIdentifier.matchLength quotedName := Scan.reads_quotedIdentifier
  have hpattern : Scan.Reads idPattern.matchLength Grammar.idPattern := Scan.reads_idPattern
  refine ⟨hname.longestIn input, hpattern.longestIn input, fun parts hparts hbegins => ?_⟩
  by_cases hnone : parts = []
  · rw [hnone]
    exact Nat.zero_le _
  · exact hpattern.size_le hbegins (mem_plus.2 ⟨parts, hnone, hparts, rfl⟩)

example : quotedIdentifier.matchSize "`a``b`c`".toList = 6 := by decide

example : idPattern.matchSize "`a``b`c`".toList = 7 := by decide

end Recognizer

end PipeQuery
