-- SUMMARY: Numbers, parameters, index patterns, policy names and names without quotes are the longest beginnings in their languages.
import PipeQuery.Proofs.Recognizer.NameLanguage
import PipeQuery.Proofs.Recognizer.Word

/-! # Lexemes

The end of a lexeme may be missing as a whole: an exponent, a sign with its digits, a name
behind a colon, a character behind a slash. A scanner takes such an end only if all of it is
there, so that what it takes as a whole are the words of a language. -/

open scoped Computability

namespace PipeQuery

theorem CharClass.ne_slash_of_isSource {c : Char} (h : isSource c = true) : c ≠ '/' := by
  rintro rfl
  exact absurd h (by decide)

namespace Grammar

/-! ## Languages -/

/-- Digits, of which there is at least one. -/
def digits : Language Char :=
  plus (one Char.isDigit)

def exponent : Language Char :=
  oneOf ['e', 'E'] * (optional (oneOf ['+', '-']) * digits)

/-- A number with a point or an exponent. -/
def decimal : Language Char :=
  digits * (exactly ['.'] * ((one Char.isDigit)∗ * optional exponent)) + digits * exponent +
    exactly ['.'] * (digits * optional exponent)

/-- What a name goes on with. -/
def nameEnd : Language Char :=
  (one fun c => c.isAlpha || c.isDigit || c == '_')∗

/-- A parameter, by name or by number. -/
def parameter : Language Char :=
  exactly ['?'] * (one Char.isAlpha * nameEnd) + exactly ['?'] * digits

/-- A name without quotes. -/
def identifier : Language Char :=
  word Char.isAlpha fun c => c.isAlpha || c.isDigit || c == '_'

/-- A character of an index pattern, or a slash with a character that makes it no comment. -/
def sourcePart : Language Char :=
  noneOf [':', '"', '=', '|', ',', '[', ']', '/', ' ', '\t', '\r', '\n'] +
    exactly ['/'] * noneOf ['*', '/']

def source : Language Char :=
  plus sourcePart

/-- A policy, or what qualifies it. -/
def policy : Language Char :=
  plus (noneOf ['\\', '/', '?', '"', '<', '>', '|', ',', '#', ':', ' ', '\t', '\r', '\n'])

def policyName : Language Char :=
  optional (policy * exactly [':']) * policy

variable {c d : Char} {w : List Char}

theorem mem_digits : w ∈ digits ↔ w ≠ [] ∧ ∀ c ∈ w, c.isDigit = true :=
  mem_plus_one

theorem mem_policy : w ∈ policy ↔ w ≠ [] ∧ ∀ c ∈ w, CharClass.isPolicy c = true := by
  have hclass : ∀ c, decide (c ∉ ['\\', '/', '?', '"', '<', '>', '|', ',', '#', ':', ' ', '\t',
      '\r', '\n']) = CharClass.isPolicy c := by
    intro c
    rw [Bool.eq_iff_iff]
    simp [CharClass.isPolicy, CharClass.isBlank]
    tauto
  rw [policy, noneOf, mem_plus_one]
  simp only [hclass]

theorem mem_sourcePart :
    w ∈ sourcePart ↔
      (∃ c, CharClass.isSource c = true ∧ w = [c]) ∨ ∃ c, c ≠ '*' ∧ c ≠ '/' ∧ w = ['/', c] := by
  have hclass : ∀ c, decide (c ∉ [':', '"', '=', '|', ',', '[', ']', '/', ' ', '\t', '\r',
      '\n']) = CharClass.isSource c := by
    intro c
    rw [Bool.eq_iff_iff]
    simp [CharClass.isSource, CharClass.isBlank]
    tauto
  rw [sourcePart, Language.mem_add, mem_exactly_mul, noneOf]
  simp only [hclass]
  refine or_congr Iff.rfl ⟨?_, ?_⟩
  · rintro ⟨_, ⟨c, hc, rfl⟩, rfl⟩
    have hother : c ≠ '*' ∧ c ≠ '/' := by simpa using hc
    exact ⟨c, hother.1, hother.2, rfl⟩
  · rintro ⟨c, hstar, hslash, rfl⟩
    exact ⟨[c], mem_one.2 (by simp [hstar, hslash]), rfl⟩

/-- No comment begins inside of an index pattern. -/
theorem not_infix_of_mem_source (hw : w ∈ source) (hd : d = '*' ∨ d = '/') : ¬['/', d] <:+: w := by
  obtain ⟨ws, -, hws, rfl⟩ := mem_plus.1 hw
  clear hw
  induction ws with
  | nil => simp
  | cons v ws ih =>
    obtain ⟨hv, hrest⟩ := List.forall_mem_cons.1 hws
    have hbehind := ih hrest
    rcases mem_sourcePart.1 hv with ⟨c, hc, rfl⟩ | ⟨c, hstar, hslash, rfl⟩
    · have hne := CharClass.ne_slash_of_isSource hc
      simp [List.infix_cons_iff, hne.symm, hbehind]
    · have hne : d ≠ c := by rintro rfl; exact hd.elim hstar hslash
      simp [List.infix_cons_iff, hslash.symm, hne, hbehind]

end Grammar

namespace Scan

open Grammar

/-! ## Numbers -/

theorem sign_of_digits {cs : List Char} (h : cs ∈ Grammar.digits) : sign cs = 0 := by
  obtain ⟨hne, hall⟩ := mem_digits.1 h
  obtain ⟨c, cs, rfl⟩ := List.exists_cons_of_ne_nil hne
  rw [sign_cons, if_neg]
  rintro (rfl | rfl) <;> exact absurd (hall _ List.mem_cons_self) (by decide)

theorem mem_sign_mul_digits {cs : List Char} :
    cs ∈ optional (oneOf ['+', '-']) * Grammar.digits ↔ cs.drop (sign cs) ∈ Grammar.digits := by
  constructor
  · rintro ⟨s, hs, ds, hds, rfl⟩
    rcases mem_optional.1 hs with rfl | ⟨c, hc, rfl⟩
    · have hnone : sign ([] ++ ds) = 0 := sign_of_digits hds
      dsimp only
      rwa [hnone]
    · have hsign : sign ([c] ++ ds) = 1 := if_pos (by simpa using hc)
      dsimp only
      rwa [hsign]
  · intro h
    rw [← List.take_append_drop (sign cs) cs]
    refine Language.append_mem_mul (mem_optional.2 ?_) h
    cases cs with
    | nil => exact .inl rfl
    | cons c cs =>
      rw [sign_cons]
      split
      case isTrue hsign => exact .inr (mem_one.2 (by simpa using hsign))
      case isFalse => exact .inl rfl

theorem reads_exponent : Reads Scan.exponent Grammar.exponent where
  le_length := exponent_le_length
  steady := steady_exponent
  mem_iff w := by
    cases w with
    | nil =>
      refine iff_of_false ?_ fun h => h.1 rfl
      rintro ⟨_, ⟨c, -, rfl⟩, v, -, h⟩
      exact absurd h nofun
    | cons c cs =>
      have hlisted : c ∈ ['e', 'E'] ↔ c = 'e' ∨ c = 'E' := by simp
      have hle := sign_le_length cs
      have hlength := List.length_drop (i := sign cs) (l := cs)
      rw [Grammar.exponent, oneOf, cons_mem_one_mul, decide_eq_true_iff, hlisted,
        mem_sign_mul_digits, mem_digits, ← leading_eq_length_iff, ← List.length_pos_iff,
        Scan.exponent, List.length_cons]
      change _ ∧ _ ∧ Scan.digits _ = _ ↔ _
      dsimp only
      split_ifs with hmark hnone
      · exact iff_of_false (fun h => by omega) fun h => h.2
      · simp only [hmark, true_and, ne_eq, List.cons_ne_nil, not_false_eq_true]
        omega
      · exact iff_of_false (fun h => hmark h.1) fun h => h.2

theorem head?_of_mem_exponent {cs : List Char} (h : cs ∈ optional Grammar.exponent) :
    ∀ c ∈ cs.head?, c.isDigit = false ∧ c ≠ '.' := by
  have hall := reads_exponent.mem_optional.1 h
  rcases Nat.eq_zero_or_pos cs.length with hnone | hsome
  · rw [List.eq_nil_of_length_eq_zero hnone]
    nofun
  · exact head?_of_exponent_pos (hall ▸ hsome)

theorem decimal_append_fraction {ds fs e : List Char} (hds : ∀ c ∈ ds, c.isDigit = true)
    (hfs : ∀ c ∈ fs, c.isDigit = true) (he : e ∈ optional Grammar.exponent)
    (hsome : ds ≠ [] ∨ fs ≠ []) :
    Scan.decimal (ds ++ '.' :: (fs ++ e)) = (ds ++ '.' :: (fs ++ e)).length := by
  have hfraction := digits_append hfs fun c hc => (head?_of_mem_exponent he c hc).1
  have hpos : ¬(ds.length = 0 ∧ fs.length = 0) := by
    rwa [List.length_eq_zero_iff, List.length_eq_zero_iff, not_and_or]
  rw [decimal_append_point hds, hfraction, if_neg hpos, List.drop_left,
    reads_exponent.mem_optional.1 he, List.length_append, List.length_cons, List.length_append]
  omega

theorem decimal_of_mem {w : List Char} (h : w ∈ Grammar.decimal) :
    w ≠ [] ∧ Scan.decimal w = w.length := by
  rcases h with (⟨ds, hds, _, hrest, rfl⟩ | ⟨ds, hds, e, he, rfl⟩) | hrest
  · obtain ⟨hne, hds⟩ := mem_digits.1 hds
    obtain ⟨_, ⟨fs, hfs, e, he, rfl⟩, rfl⟩ := mem_exactly_mul.1 hrest
    have hall := decimal_append_fraction hds (mem_star_one.1 hfs) he (.inl hne)
    exact ⟨List.append_ne_nil_of_left_ne_nil hne _, hall⟩
  · obtain ⟨hne, hds⟩ := mem_digits.1 hds
    obtain ⟨hexp, hall⟩ := (reads_exponent.mem_iff e).1 he
    refine ⟨List.append_ne_nil_of_left_ne_nil hne _, ?_⟩
    dsimp only
    rw [decimal_append hds (head?_of_mem_exponent (mem_optional.2 (.inr he))), hall, if_neg,
      List.length_append]
    rw [List.length_eq_zero_iff, List.length_eq_zero_iff]
    exact not_or.2 ⟨hne, hexp⟩
  · obtain ⟨_, ⟨fs, hfs, e, he, rfl⟩, rfl⟩ := mem_exactly_mul.1 hrest
    obtain ⟨hne, hfs⟩ := mem_digits.1 hfs
    have hwhole : ∀ c ∈ ([] : List Char), c.isDigit = true := nofun
    have hall := decimal_append_fraction hwhole hfs he (.inr hne)
    exact ⟨List.cons_ne_nil _ _, hall⟩

theorem mem_decimal {w : List Char} (hne : w ≠ []) (h : Scan.decimal w = w.length) :
    w ∈ Grammar.decimal := by
  have hpos : w.length ≠ 0 := (List.length_pos_iff.2 hne).ne'
  obtain ⟨ds, rest, rfl, hds, hrest⟩ := exists_run Char.isDigit w
  -- A point behind the first digits decides for one of the two forms that have one.
  by_cases hpoint : ∃ rest', rest = '.' :: rest'
  · obtain ⟨rest, rfl⟩ := hpoint
    obtain ⟨fs, e, rfl, hfs, he⟩ := exists_run Char.isDigit rest
    rw [decimal_append_point hds, digits_append hfs he, List.drop_left] at h
    split at h
    case isTrue => exact absurd h.symm hpos
    case isFalse hsome =>
      have hexp : Scan.exponent e = e.length := by
        simp only [List.length_append, List.length_cons] at h
        omega
      have hexp := reads_exponent.mem_optional.2 hexp
      by_cases hwhole : ds = []
      · subst hwhole
        have hne : fs ≠ [] := fun hnil => hsome (by simp [hnil])
        exact .inr (mem_exactly_mul.2
          ⟨_, Language.append_mem_mul (mem_digits.2 ⟨hne, hfs⟩) hexp, rfl⟩)
      · exact .inl (.inl (Language.append_mem_mul (mem_digits.2 ⟨hwhole, hds⟩)
          (mem_exactly_mul.2 ⟨_, Language.append_mem_mul (mem_star_one.2 hfs) hexp, rfl⟩)))
  · have hhead : ∀ c ∈ rest.head?, c.isDigit = false ∧ c ≠ '.' := by
      refine fun c hc => ⟨hrest c hc, ?_⟩
      rintro rfl
      exact hpoint ⟨_, List.eq_cons_of_mem_head? hc⟩
    rw [decimal_append hds hhead] at h
    split at h
    case isTrue => exact absurd h.symm hpos
    case isFalse hsome =>
      rw [List.length_eq_zero_iff, not_or] at hsome
      have hexp : Scan.exponent rest = rest.length := by
        rw [List.length_append] at h
        omega
      have hmem : rest ∈ Grammar.exponent := by
        refine (reads_exponent.mem_iff rest).2 ⟨?_, hexp⟩
        rintro rfl
        exact hsome.2 rfl
      exact .inl (.inr (Language.append_mem_mul (mem_digits.2 ⟨hsome.1, hds⟩) hmem))

theorem reads_decimal : Reads Scan.decimal Grammar.decimal where
  le_length := decimal_le_length
  steady := steady_decimal
  mem_iff _ := ⟨decimal_of_mem, fun h => mem_decimal h.1 h.2⟩

/-! ## Parameters -/

theorem parameter_of_mem {w : List Char} (h : w ∈ Grammar.parameter) :
    w ≠ [] ∧ Scan.parameter w = w.length := by
  rcases h with h | h
  · obtain ⟨_, ⟨_, ⟨c, hc, rfl⟩, cs, hcs, rfl⟩, rfl⟩ := mem_exactly_mul.1 h
    have hrun : leading CharClass.isWord cs = cs.length := leading_of_all (mem_star_one.1 hcs)
    have hall : Scan.parameter ('?' :: c :: cs) = 2 + leading CharClass.isWord cs := if_pos hc
    refine ⟨List.cons_ne_nil _ _, hall.trans ?_⟩
    rw [hrun, Nat.add_comm]
    rfl
  · obtain ⟨v, hv, rfl⟩ := mem_exactly_mul.1 h
    obtain ⟨hne, hdigits⟩ := mem_digits.1 hv
    obtain ⟨c, cs, rfl⟩ := List.exists_cons_of_ne_nil hne
    obtain ⟨hc, hcs⟩ := List.forall_mem_cons.1 hdigits
    have hrun : Scan.digits cs = cs.length := leading_of_all hcs
    have hletter : ¬c.isAlpha = true := fun halpha => by
      simp [CharClass.isDigit_of_isAlpha halpha] at hc
    have hall : Scan.parameter ('?' :: c :: cs) = 2 + Scan.digits cs :=
      (if_neg hletter).trans (if_pos hc)
    refine ⟨List.cons_ne_nil _ _, hall.trans ?_⟩
    rw [hrun, Nat.add_comm]
    rfl

theorem mem_parameter {w : List Char} (hne : w ≠ []) (h : Scan.parameter w = w.length) :
    w ∈ Grammar.parameter := by
  have hpos := List.length_pos_iff.2 hne
  unfold Scan.parameter at h
  split at h
  case h_1 c cs =>
    rw [List.length_cons, List.length_cons] at h
    split_ifs at h with hletter hdigit
    · have hcs : ∀ d ∈ cs, CharClass.isWord d = true := leading_eq_length_iff.1 (by omega)
      exact .inl (mem_exactly_mul.2 ⟨_, cons_mem_one_mul.2 ⟨hletter, mem_star_one.2 hcs⟩, rfl⟩)
    · have hcs : ∀ d ∈ cs, d.isDigit = true := leading_eq_length_iff.1 (by rw [digits] at h; omega)
      have hdigits := mem_digits.2 ⟨List.cons_ne_nil c cs, List.forall_mem_cons.2 ⟨hdigit, hcs⟩⟩
      exact .inr (mem_exactly_mul.2 ⟨_, hdigits, rfl⟩)
  case h_2 => omega

theorem reads_parameter : Reads Scan.parameter Grammar.parameter where
  le_length := parameter_le_length
  steady := steady_parameter
  mem_iff _ := ⟨parameter_of_mem, fun h => mem_parameter h.1 h.2⟩

/-! ## Index Patterns -/

theorem reads_sourcePiece : Reads sourcePiece sourcePart where
  le_length cs := (settled_sourcePiece cs).1
  steady := settled_sourcePiece.steady
  mem_iff w := by
    rw [mem_sourcePart]
    constructor
    · rintro (⟨c, hc, rfl⟩ | ⟨c, hstar, hslash, rfl⟩)
      · have hne : c ≠ '/' := CharClass.ne_slash_of_isSource hc
        exact ⟨List.cons_ne_nil _ _, by rw [sourcePiece_of_ne hne, if_pos hc]; rfl⟩
      · exact ⟨List.cons_ne_nil _ _, if_neg (not_or.2 ⟨hstar, hslash⟩)⟩
    · rintro ⟨hne, hall⟩
      have hpos := List.length_pos_iff.2 hne
      unfold sourcePiece at hall
      split at hall
      case h_1 c cs =>
        split_ifs at hall with hcomment
        obtain ⟨hstar, hslash⟩ := not_or.1 hcomment
        obtain rfl : cs = [] := List.eq_nil_of_length_eq_zero (by simpa using hall.symm)
        exact .inr ⟨c, hstar, hslash, rfl⟩
      case h_2 c cs _ =>
        split_ifs at hall with hc
        obtain rfl : cs = [] := List.eq_nil_of_length_eq_zero (by simpa using hall.symm)
        exact .inl ⟨c, hc, rfl⟩
      case h_3 => exact absurd rfl hne

theorem reads_unquotedSource : Reads unquotedSource source :=
  reads_sourcePiece.pieces_of_settled settled_sourcePiece

/-! ## Policies -/

theorem policyName_of_mem {w : List Char} (h : w ∈ Grammar.policyName) :
    w ≠ [] ∧ Scan.policyName w = w.length := by
  obtain ⟨_, hqualifier, tail, htail, rfl⟩ := h
  obtain ⟨hne, htail⟩ := mem_policy.1 htail
  have hrun := leading_of_all htail
  refine ⟨List.append_ne_nil_of_right_ne_nil _ hne, ?_⟩
  rcases mem_optional.1 hqualifier with rfl | ⟨head, hhead, _, rfl, rfl⟩
  · simp [Scan.policyName, hrun]
  · obtain ⟨hne', hhead⟩ := mem_policy.1 hhead
    have hfirst : leading CharClass.isPolicy (head ++ ':' :: tail) = head.length :=
      leading_append_of_head hhead (by rintro c ⟨⟩; rfl)
    simp [Scan.policyName, hfirst, hrun, hne, hne']
    omega

theorem mem_policyName {w : List Char} (hne : w ≠ []) (h : Scan.policyName w = w.length) :
    w ∈ Grammar.policyName := by
  have hpos := List.length_pos_iff.2 hne
  obtain ⟨head, rest, rfl, hhead, hrest⟩ := exists_run CharClass.isPolicy w
  rw [Scan.policyName, leading_append_of_head hhead hrest, List.length_append] at h
  simp only [List.drop_left] at h
  split at h
  -- The colon is taken only together with a name behind it.
  case h_1 tail =>
    rw [List.length_cons] at h
    split_ifs at h with hnone
    · omega
    · rw [List.length_eq_zero_iff, not_or] at hnone
      have htail := leading_eq_length_iff.1 (by omega : leading CharClass.isPolicy tail = tail.length)
      have hsome : tail ≠ [] := fun hnil => hnone.2 (by rw [hnil]; rfl)
      have hqualifier := Language.append_mem_mul (mem_policy.2 ⟨hnone.1, hhead⟩)
        (Set.mem_singleton [':'])
      have hall := Language.append_mem_mul (mem_optional.2 (.inr hqualifier))
        (mem_policy.2 ⟨hsome, htail⟩)
      rwa [List.append_assoc] at hall
  case h_2 =>
    obtain rfl : rest = [] := List.eq_nil_of_length_eq_zero (by omega)
    rw [List.append_nil] at hne ⊢
    exact Language.append_mem_mul (mem_optional.2 (.inl rfl)) (mem_policy.2 ⟨hne, hhead⟩)

theorem reads_policyName : Reads Scan.policyName Grammar.policyName where
  le_length := policyName_le_length
  steady := steady_policyName
  mem_iff _ := ⟨policyName_of_mem, fun h => mem_policyName h.1 h.2⟩

end Scan

namespace Recognizer

open Grammar

/-- Each of these lexemes is the longest beginning in its language, and no comment begins
inside of an index pattern. -/
theorem longestIn_lexemes (input : List Char) :
    LongestIn Grammar.decimal input (decimal.matchSize input) ∧
    LongestIn source input (unquotedSource.matchSize input) ∧
    LongestIn Grammar.policyName input (policyName.matchSize input) ∧
    LongestIn Grammar.parameter input (parameter.matchSize input) ∧
    LongestIn identifier input (unquotedIdentifier.matchSize input) ∧
    ¬['/', '/'] <:+: input.take (unquotedSource.matchLength input) ∧
    ¬['/', '*'] <:+: input.take (unquotedSource.matchLength input) := by
  have hsource : Scan.Reads unquotedSource.matchLength source := Scan.reads_unquotedSource
  have hcomment : ∀ d, d = '*' ∨ d = '/' →
      ¬['/', d] <:+: input.take (unquotedSource.matchLength input) := by
    intro d hd
    rcases Nat.eq_zero_or_pos (unquotedSource.matchLength input) with hzero | hpos
    · simp [hzero]
    · exact not_infix_of_mem_source (hsource.take_mem hpos) hd
  have hdecimal : Scan.Reads decimal.matchLength Grammar.decimal := Scan.reads_decimal
  have hpolicy : Scan.Reads policyName.matchLength Grammar.policyName := Scan.reads_policyName
  have hparameter : Scan.Reads parameter.matchLength Grammar.parameter := Scan.reads_parameter
  have hidentifier : Scan.Reads unquotedIdentifier.matchLength identifier := Scan.reads_word _ _
  exact ⟨hdecimal.longestIn input, hsource.longestIn input, hpolicy.longestIn input,
    hparameter.longestIn input, hidentifier.longestIn input, hcomment '/' (.inr rfl),
    hcomment '*' (.inl rfl)⟩

example : decimal.matchSize "1.e+".toList = 2 := by decide

example : unquotedSource.matchSize "a/b/".toList = 3 := by decide

end Recognizer

end PipeQuery
