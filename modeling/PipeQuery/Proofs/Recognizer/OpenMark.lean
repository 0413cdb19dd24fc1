-- SUMMARY: How far a refused text fits the patterns that fixed texts, runs or one mark begin.
import PipeQuery.Proofs.Recognizer.Comment
import PipeQuery.Proofs.Recognizer.Completion

/-! # Open Texts, Runs and Marks

Most patterns that refuse a text do so within its first two characters. Fixed
texts are refused where they differ, and a block comment only for want of its end. -/

namespace PipeQuery.Scan

/-! ## Fixed Texts -/

theorem measures_fixed {same : Char → Char → Bool} (hrefl : ∀ c, same c c = true)
    {text : List Char} (hne : text ≠ []) : Measures (fixed same text) (shared same text) where
  completable {cs} _ := by
    have hall := shared_take_append_drop hrefl text cs
    have hlen : (cs.take (shared same text cs) ++ text.drop (shared same text cs)).length =
        text.length := by
      have hleft := shared_le_left same text cs
      have hright := shared_le_right same text cs
      simp only [List.length_append, List.length_take, List.length_drop]
      omega
    -- What is missing of the fixed text is appended.
    refine ⟨text.drop (shared same text cs), ?_, ?_⟩
    · rw [← List.length_pos_iff, hlen]
      exact List.length_pos_iff.2 hne
    · rw [fixed, if_pos hall, hlen]
  fits {cs q s} hscan hq hpos := by
    obtain ⟨cs', rfl⟩ := hq
    have hkept := min_shared_le_shared_append same text q s cs'
    rw [(fixed_pos_iff hne).1 hpos] at hkept
    -- A beginning as long as the fixed text would have been taken.
    rcases Nat.le_total q.length text.length with hle | hle
    · rwa [Nat.min_eq_left hle] at hkept
    · rw [Nat.min_eq_right hle] at hkept
      have hall := Nat.le_antisymm (shared_le_left same text (q ++ cs')) hkept
      exact absurd hscan ((fixed_pos_iff hne).2 hall).ne'

/-! ## Runs -/

theorem measures_leading {p : Char → Bool} {c : Char} (hc : p c = true) :
    Measures (leading p) fun _ => 0 := by
  refine .of_head (fun h ds => ?_) ⟨[c], by simp, ?_⟩
  · rw [leading_pos_iff] at h ⊢
    exact h
  · exact leading_of_all (by simpa using hc)

/-! ## Comments -/

theorem openLineComment_eq : openLineComment = openMark (· == '/') := by
  funext cs
  unfold openLineComment openMark
  split
  case h_1 => rfl
  case h_2 cs hne =>
    split
    case h_1 c cs =>
      have hc : c ≠ '/' := fun hc => hne cs (by rw [hc])
      simp [hc]
    case h_2 => rfl

theorem measures_lineComment : Measures lineComment openLineComment := by
  have h : Measures lineComment (openMark (· == '/')) := by
    refine .of_mark (fun {c cs} h => .inl ?_) (fun {c d cs} h ds => ?_) (fun c h => ?_) ?_
    · unfold lineComment at h
      split at h
      case h_1 heq => simp [(List.cons.inj heq).1]
      case h_2 => exact absurd h (Nat.lt_irrefl _)
    · unfold lineComment at h
      split at h
      case h_1 heq =>
        obtain ⟨rfl, hcs⟩ := List.cons.inj heq
        obtain ⟨rfl, -⟩ := List.cons.inj hcs
        exact Nat.lt_of_lt_of_le Nat.two_pos (Nat.le_add_right _ _)
      case h_2 => exact absurd h (Nat.lt_irrefl _)
    · obtain rfl : c = '/' := by simpa using h
      exact ⟨['/'], by decide⟩
    · exact ⟨['/', '/'], by decide⟩
  rwa [← openLineComment_eq] at h

theorem blockComment_open (cs : List Char) :
    blockComment ('/' :: '*' :: cs) =
      match Comment.bodyLength? cs with
      | some body => body + 2
      | none => 0 := rfl

theorem begins_of_blockComment_pos {cs : List Char} (h : 0 < blockComment cs) :
    ∃ body, cs = '/' :: '*' :: body := by
  unfold blockComment at h
  split at h
  case h_1 body => exact ⟨body, rfl⟩
  case h_2 => exact absurd h (Nat.lt_irrefl _)

/-- A comment that is opened only waits for its closing characters. -/
theorem blockComment_append_closing {cs : List Char} (h : blockComment ('/' :: '*' :: cs) = 0) :
    blockComment ('/' :: '*' :: cs ++ Comment.closing) =
      ('/' :: '*' :: cs ++ Comment.closing).length := by
  rw [blockComment_open, Comment.bodyLength?_eq] at h
  have hopen : Comment.remains? cs = none := by
    cases hcs : Comment.remains? cs with
    | none => rfl
    | some k => simp [hcs] at h
  have hclosed := Comment.remains?_append_closing (Comment.remains?_eq_none_iff.1 hopen)
  rw [List.cons_append, List.cons_append, blockComment_open, Comment.bodyLength?_eq, hclosed]
  simp

theorem measures_blockComment : Measures blockComment openBlockComment where
  completable {cs} hscan := by
    unfold openBlockComment
    -- An opened comment needs closing characters only, a slash or nothing a whole comment.
    split
    case h_1 body =>
      have hall : ('/' :: '*' :: body).take (body.length + 2) = '/' :: '*' :: body :=
        List.take_of_length_le (Nat.le_refl _)
      rw [hall]
      exact ⟨Comment.closing, List.cons_ne_nil _ _, blockComment_append_closing hscan⟩
    case h_2 =>
      rw [List.take_succ_cons, List.take_zero]
      exact ⟨['*', '*', '/'], by decide⟩
    case h_3 =>
      rw [List.take_zero]
      exact ⟨['/', '*', '*', '/'], by decide⟩
  fits {cs q s} hscan hq hpos := by
    obtain ⟨cs', rfl⟩ := hq
    obtain ⟨body, hbody⟩ := begins_of_blockComment_pos hpos
    match q with
    | [] => exact Nat.zero_le _
    | [c] =>
      obtain rfl : c = '/' := (List.cons.inj hbody).1
      unfold openBlockComment
      split <;> simp_all
    | c :: d :: q =>
      obtain ⟨rfl, hd⟩ := List.cons.inj hbody
      obtain ⟨rfl, -⟩ := List.cons.inj hd
      simp [openBlockComment]

/-! ## Marks -/

theorem measures_parameter : Measures parameter (openMark (· == '?')) := by
  refine .of_mark (fun {c cs} h => .inl ?_) (fun {c d cs} h ds => ?_) (fun c h => ?_) ?_
  · unfold parameter at h
    split at h
    case h_1 heq => simp [(List.cons.inj heq).1]
    case h_2 => exact absurd h (Nat.lt_irrefl _)
  · unfold parameter at h
    split at h
    case h_1 e es heq =>
      obtain ⟨rfl, hcs⟩ := List.cons.inj heq
      obtain ⟨rfl, -⟩ := List.cons.inj hcs
      rw [parameter]
      split at h
      case isTrue halpha =>
        rw [if_pos halpha]
        omega
      case isFalse halpha =>
        rw [if_neg halpha]
        split at h
        case isTrue hdigit =>
          rw [if_pos hdigit]
          omega
        case isFalse => exact absurd h (Nat.lt_irrefl _)
    case h_2 => exact absurd h (Nat.lt_irrefl _)
  · obtain rfl : c = '?' := by simpa using h
    exact ⟨['a'], by decide⟩
  · exact ⟨['?', 'a'], by decide⟩

theorem word_pos_iff {opens body : Char → Bool} {c : Char} {cs : List Char} :
    0 < word opens body (c :: cs) ↔
      opens c = true ∨ (c = '_' ∨ c = '@') ∧ 0 < leading body cs := by
  rw [word]
  dsimp only
  split
  case isTrue h => exact iff_of_true (Nat.add_pos_left Nat.one_pos _) (.inl h)
  case isFalse h =>
    split
    case isTrue hmark =>
      split
      case isTrue hzero => simp [h, hzero]
      case isFalse hsome =>
        exact iff_of_true (Nat.add_pos_left Nat.one_pos _) (.inr ⟨hmark, Nat.pos_of_ne_zero hsome⟩)
    case isFalse hmark => simp [h, hmark]

theorem measures_word {opens body : Char → Bool} {c : Char} (hopens : opens c = true)
    (hbody : body c = true) :
    Measures (word opens body) (openMark fun c => c == '_' || c == '@') := by
  have hlast : leading body [c] = 1 := leading_of_all (by simpa using hbody)
  refine .of_mark (fun {d cs} h => ?_) (fun {d e cs} h ds => ?_) (fun d h => ?_) ?_
  · rcases word_pos_iff.1 h with hd | ⟨hmark, -⟩
    · exact .inr fun ds => word_pos_iff.2 (.inl hd)
    · exact .inl (by simpa using hmark)
  · rw [word_pos_iff, leading_pos_iff] at h ⊢
    exact h
  · refine ⟨[c], List.cons_ne_nil _ _, ?_⟩
    have hmark : d = '_' ∨ d = '@' := by simpa using h
    simp [word, hmark, hlast]
  · refine ⟨[c], List.cons_ne_nil _ _, ?_⟩
    simp [word, hopens]

/-! ## Sources and Policies -/

theorem measures_unquotedSource : Measures unquotedSource openSource := by
  have h : Measures sourcePiece (openMark (· == '/')) := by
    refine .of_mark (fun {c cs} h => ?_) (fun {c d cs} h ds => ?_) (fun c h => ?_) ?_
    · by_cases hc : c = '/'
      · exact .inl (by simp [hc])
      · rw [sourcePiece_of_ne hc] at h
        refine .inr fun ds => ?_
        rwa [sourcePiece_of_ne hc]
    · by_cases hc : c = '/'
      · subst hc
        exact h
      · rw [sourcePiece_of_ne hc] at h ⊢
        exact h
    · obtain rfl : c = '/' := by simpa using h
      exact ⟨['a'], by decide⟩
    · exact ⟨['a'], by decide⟩
  refine (h.repeated rfl).congr fun cs hscan => ?_
  have hzero : unquotedSource cs = 0 := hscan
  unfold openSource
  dsimp only
  rw [hzero, List.drop_zero]
  exact congrFun openLineComment_eq cs

theorem policyName_pos_iff {cs : List Char} :
    0 < policyName cs ↔ 0 < leading CharClass.isPolicy cs := by
  unfold policyName
  dsimp only
  split
  · split <;> omega
  · rfl

theorem measures_policyName : Measures policyName openPolicyName := by
  have h : Measures policyName fun _ => 0 := by
    refine .of_head (fun h ds => ?_) ⟨['a'], by decide⟩
    rw [policyName_pos_iff, leading_pos_iff] at h ⊢
    exact h
  refine h.congr fun cs hscan => ?_
  have hzero : leading CharClass.isPolicy cs = 0 :=
    Nat.eq_zero_of_not_pos fun hpos => absurd hscan (policyName_pos_iff.2 hpos).ne'
  unfold openPolicyName
  dsimp only
  rw [hzero]
  split <;> rfl

end PipeQuery.Scan
