-- SUMMARY: When cutting a text behind a block comment leaves the comment as it is.
import PipeQuery.Proofs.Recognizer.Cut
import PipeQuery.Proofs.Recognizer.Nesting

/-! # Cut Comments

Whether the characters that open a comment inside another one are plain text depends on all
that follows them, so that a text far behind may change where a comment ends. It does not
where all levels are closed. Nor does it where no slash that would close a comment follows
the characters that open one: a comment then goes up to the last closing characters. -/

namespace PipeQuery

namespace Comment

variable {depth : Nat} {cs rest left : List Char}

/-! ## Levels -/

/-- Levels may be closed one after the other. -/
theorem behind?_add (h : behind? depth cs = some left) (more : Nat) :
    behind? (more + depth) cs = behind? more left := by
  fun_induction behind? depth cs with
  | case1 cs => rw [Option.some.inj h, Nat.add_zero]
  | case2 => cases h
  | case3 depth cs ih => exact ih h
  | case4 depth cs ih => exact ih h
  | case5 depth c cs hclose hopen ih =>
    have hplain : behind? (more + depth + 1) (c :: cs) = behind? (more + depth + 1) cs := by
      refine behind?_plain ?_ ?_
      · rintro ⟨rfl, hc⟩
        exact hclose _ rfl (List.eq_cons_of_mem_head? hc)
      · rintro ⟨rfl, hc⟩
        exact hopen _ rfl (List.eq_cons_of_mem_head? hc)
    exact hplain.trans (ih h)

/-! ## Last Closing Characters -/

/-- Opening characters whose star also closes. -/
def overlap : List Char := ['/', '*', '/']

/-- Whether the end of a comment body does not hinge on what follows: all levels are closed,
or none is opened by characters of which the star also closes. -/
def Clear (cs : List Char) : Prop :=
  behind? 1 cs ≠ none ∨ ¬overlap <:+: cs

instance (cs : List Char) : Decidable (Clear cs) :=
  inferInstanceAs (Decidable (_ ∨ _))

/-- A body whose level is not closed ends with the last closing characters. -/
theorem not_closing_of_remains? {k : Nat} (hopen : behind? 1 cs = none)
    (hclear : ¬overlap <:+: cs) (h : remains? cs = some k) :
    ∃ left, left <:+ cs ∧ left.length = k ∧ ¬closing <:+: left := by
  induction hn : cs.length using Nat.strongRecOn generalizing cs k with
  | ind n ih =>
    subst hn
    rcases cases_of_text cs with rfl | ⟨ds, rfl⟩ | ⟨ds, rfl⟩ | ⟨c, ds, rfl, hclose, hplain⟩
    · cases h
    · rw [behind?, behind?_zero] at hopen
      cases hopen
    · have hopen : behind? 2 ds = none := hopen
      have hclear' : ¬overlap <:+: ds := fun hds => hclear (hds.trans ⟨['/', '*'], [], by simp⟩)
      have hslash : ds.head? ≠ some '/' := by
        intro hhead
        rw [List.eq_cons_of_mem_head? hhead] at hclear
        exact hclear ⟨[], ds.tail, rfl⟩
      have hstar : remains? ('*' :: ds) = remains? ds :=
        remains?_plain (fun h => hslash h.2) (fun h => absurd h.1 (by decide))
      have hshorter : ds.length < ('/' :: '*' :: ds).length := by
        simp only [List.length_cons]
        omega
      rw [remains?_open, hstar] at h
      cases hinner : behind? 1 ds with
      | some behind =>
        -- The comment inside is closed, and the level stays open behind it.
        obtain ⟨left, hleft, hremains, hbehind⟩ := remains?_of_behind? hinner
        obtain rfl : left = behind := by simpa using hbehind
        have hsuffix : left <:+ '/' :: '*' :: ds := hleft.trans ⟨['/', '*'], rfl⟩
        have hopen' : behind? 1 left = none := by rw [← behind?_add hinner 1, hopen]
        have hclear'' : ¬overlap <:+: left := fun hl => hclear' (hl.trans hleft.isInfix)
        rw [hremains, Option.bind_some, ← List.suffix_iff_eq_drop.1 hleft] at h
        rcases Option.or_eq_some_iff.1 h with hbody | ⟨hnone, hplain⟩
        · obtain ⟨last, hlast, hk, hclosing⟩ :=
            ih _ (Nat.lt_of_le_of_lt hleft.length_le hshorter) hopen' hclear'' hbody rfl
          exact ⟨last, hlast.trans hsuffix, hk, hclosing⟩
        · exact ⟨left, hsuffix, Option.some.inj hplain, remains?_eq_none_iff.1 hnone⟩
      | none =>
        have hplain : remains? ds = some k := by
          rcases Option.or_eq_some_iff.1 h with hnested | ⟨-, hplain⟩
          · -- Nothing is left to end the outer body with behind the last closing characters.
            obtain ⟨inner, hremains, hbody⟩ := Option.bind_eq_some_iff.1 hnested
            obtain ⟨left, hleft, rfl, hclosing⟩ := ih _ hshorter hinner hclear' hremains rfl
            rw [← List.suffix_iff_eq_drop.1 hleft, remains?_eq_none_iff.2 hclosing] at hbody
            cases hbody
          · exact hplain
        obtain ⟨left, hleft, hk, hclosing⟩ := ih _ hshorter hinner hclear' hplain rfl
        exact ⟨left, hleft.trans ⟨['/', '*'], rfl⟩, hk, hclosing⟩
    · rw [behind?_plain hclose hplain] at hopen
      rw [remains?_plain hclose hplain] at h
      have hclear' : ¬overlap <:+: ds := fun hds => hclear (hds.trans (List.suffix_cons c ds).isInfix)
      obtain ⟨left, hleft, hk, hlast⟩ := ih _ (Nat.lt_succ_self _) hopen hclear' h rfl
      exact ⟨left, hleft.trans (List.suffix_cons c ds), hk, hlast⟩

/-- The body up to the last closing characters. -/
theorem exists_last_closing (hopen : behind? 1 cs = none) (hclear : ¬overlap <:+: cs)
    (h : closing <:+: cs) :
    ∃ body left, cs = body ++ (closing ++ left) ∧ remains? cs = some left.length ∧
      ¬closing <:+: left := by
  obtain ⟨k, hk⟩ := Option.ne_none_iff_exists'.1 fun hnone => remains?_eq_none_iff.1 hnone h
  obtain ⟨body, behind, hcs, hlength⟩ := exists_body_of_remains? hk
  obtain ⟨left, hleft, hlength', hclosing⟩ := not_closing_of_remains? hopen hclear hk
  have hbehind : behind <:+ cs := ⟨body ++ closing, by rw [hcs, List.append_assoc]⟩
  have hsuffix := List.suffix_of_suffix_length_le hleft hbehind (by omega)
  obtain rfl : left = behind := hsuffix.eq_of_length (by omega)
  exact ⟨body, left, hcs, by rw [hk, hlength], hclosing⟩

/-- Text without closing characters changes nothing before it, unless it makes some together
with a star before it. -/
theorem remains?_append (hleft : ¬closing <:+: left) (hstar : cs.getLast? ≠ some '*') :
    remains? (cs ++ left) = (remains? cs).map (· + left.length) := by
  induction hn : cs.length using Nat.strongRecOn generalizing cs with
  | ind n ih =>
    subst hn
    have hsuffix : ∀ ds : List Char, ds <:+ cs → ds.length < cs.length →
        remains? (ds ++ left) = (remains? ds).map (· + left.length) := by
      intro ds hds hshorter
      refine ih _ hshorter (fun hlast => hstar ?_) rfl
      obtain ⟨front, rfl⟩ := hds
      rw [List.getLast?_append, hlast]
      rfl
    rcases cases_of_text cs with rfl | ⟨ds, rfl⟩ | ⟨ds, rfl⟩ | ⟨c, ds, rfl, hclose, hopen⟩
    · exact remains?_eq_none_iff.2 hleft
    · rw [List.cons_append, List.cons_append, remains?_close, remains?_close, List.length_append]
      rfl
    · have hbody := hsuffix ('*' :: ds) (List.suffix_cons _ _) (Nat.lt_succ_self _)
      have hshorter : ds.length < ('/' :: '*' :: ds).length := by
        simp only [List.length_cons]
        omega
      have hinner := hsuffix ds ⟨['/', '*'], rfl⟩ hshorter
      rw [List.cons_append] at hbody
      rw [List.cons_append, List.cons_append, remains?_open, remains?_open, hbody, hinner,
        Option.map_or]
      congr 1
      cases hremains : remains? ds with
      | none => rfl
      | some k =>
        have hk := remains?_lt hremains
        have hdrop : (ds ++ left).drop ((ds ++ left).length - (k + left.length)) =
            ds.drop (ds.length - k) ++ left := by
          rw [List.length_append, Nat.add_sub_add_right,
            List.drop_append_of_le_length (Nat.sub_le _ _)]
        have hbehind := hsuffix (ds.drop (ds.length - k))
          ((List.drop_suffix _ _).trans ⟨['/', '*'], rfl⟩)
          (Nat.lt_of_le_of_lt (List.drop_suffix _ _).length_le hshorter)
        rw [Option.map_some, Option.bind_some, Option.bind_some, hdrop, hbehind]
    · cases ds with
      | nil =>
        -- A slash at the end may open a comment with what follows, which does not end either.
        have hc : c ≠ '*' := fun hc => hstar (by rw [hc]; rfl)
        have hnone : ¬closing <:+: c :: left := by
          rw [closing_infix_cons, not_or]
          exact ⟨fun h => hc h.1, hleft⟩
        rw [remains?_plain hclose hopen]
        exact remains?_eq_none_iff.2 hnone
      | cons d ds =>
        have hrest := hsuffix (d :: ds) (List.suffix_cons _ _) (Nat.lt_succ_self _)
        rw [remains?_plain hclose hopen, ← hrest]
        exact remains?_plain hclose hopen

/-- Closing characters at the end of a text that goes on behind others lie behind them. -/
theorem closing_infix_of_suffix {body behind : List Char}
    (h : closing <:+ body ++ (closing ++ behind)) (hne : behind ≠ []) : closing <:+: behind := by
  match behind with
  | [c] =>
    have hlast : ['/', c] <:+ body ++ (closing ++ [c]) := ⟨body ++ ['*'], by simp [closing]⟩
    have hshared := List.suffix_of_suffix_length_le h hlast (Nat.le_refl 2)
    exact absurd (hshared.eq_of_length rfl) (by simp [closing])
  | c :: d :: behind =>
    have hlast : c :: d :: behind <:+ body ++ (closing ++ c :: d :: behind) :=
      ⟨body ++ closing, by rw [List.append_assoc]⟩
    have hlength : closing.length ≤ (c :: d :: behind).length := by simp [closing]
    exact (List.suffix_of_suffix_length_le h hlast hlength).isInfix

end Comment

/-! ## Cuts -/

namespace Scan

open Comment

variable {cs : List Char}

theorem blockComment_append {taken behind : List Char}
    (h : remains? (taken ++ behind) = some behind.length) :
    blockComment ('/' :: '*' :: (taken ++ behind)) = taken.length + 2 := by
  rw [blockComment, bodyLength?_eq, h, Option.map_some, List.length_append, Nat.add_sub_cancel]

/-- A comment that is taken whole ends with closing characters. -/
theorem closing_suffix_of_whole (h : blockComment ('/' :: '*' :: cs) = cs.length + 2) :
    closing <:+ cs := by
  obtain ⟨body, hbody⟩ := take_blockComment (by omega : 0 < blockComment ('/' :: '*' :: cs))
  rw [h, List.take_succ_cons, List.take_succ_cons, List.take_length] at hbody
  exact ⟨body, (List.cons.inj (List.cons.inj hbody).2).2.symm⟩

theorem longestTaken_of_closed {rest : List Char} (h : behind? 1 cs = some rest) :
    LongestTaken blockComment ('/' :: '*' :: cs)
      (('/' :: '*' :: cs).take (blockComment ('/' :: '*' :: cs))) := by
  obtain ⟨closed, rfl, hclosed⟩ := exists_closed_of_behind? h
  have hlength : ∀ more, blockComment ('/' :: '*' :: (closed ++ more)) = closed.length + 2 := by
    intro more
    rw [blockComment_of_behind? (hclosed more), List.length_append, Nat.add_sub_cancel]
  have hwhole := hlength []
  rw [List.append_nil] at hwhole
  rw [hlength, List.take_succ_cons, List.take_succ_cons, List.take_left]
  refine ⟨⟨rest, rfl⟩, hwhole, fun q hq hall => ?_⟩
  by_contra hlonger
  have hbegin : '/' :: '*' :: closed <+: '/' :: '*' :: (closed ++ rest) := ⟨rest, rfl⟩
  obtain ⟨more, rfl⟩ := List.prefix_of_prefix_length_le hbegin hq (by omega)
  rw [List.cons_append, List.cons_append, hlength] at hall
  simp only [List.length_cons, List.length_append] at hall hlonger
  omega

/-- A comment up to the last closing characters. -/
theorem longestTaken_of_last {body left : List Char}
    (h : remains? (body ++ (closing ++ left)) = some left.length) (hlast : ¬closing <:+: left) :
    LongestTaken blockComment ('/' :: '*' :: (body ++ (closing ++ left)))
      (('/' :: '*' :: (body ++ (closing ++ left))).take
        (blockComment ('/' :: '*' :: (body ++ (closing ++ left))))) := by
  rw [← List.append_assoc] at h ⊢
  rw [blockComment_append h, List.take_succ_cons, List.take_succ_cons, List.take_left]
  refine ⟨⟨left, rfl⟩, ?_, fun q hq hall => ?_⟩
  -- What stands behind the last closing characters has no part in how the body is read.
  · have hslash : (body ++ closing).getLast? ≠ some '*' := by simp [closing]
    rw [remains?_append hlast hslash] at h
    have hwhole : remains? (body ++ closing ++ []) = some 0 := by
      obtain ⟨k, hk, hsum⟩ := Option.map_eq_some_iff.1 h
      obtain rfl : k = 0 := by omega
      rwa [List.append_nil]
    have hlength := blockComment_append hwhole
    rwa [List.append_nil] at hlength
  · by_contra hlonger
    -- A longer comment would end with closing characters that lie behind the last ones.
    have hbegin : '/' :: '*' :: (body ++ closing) <+: '/' :: '*' :: (body ++ closing ++ left) :=
      ⟨left, rfl⟩
    obtain ⟨more, rfl⟩ := List.prefix_of_prefix_length_le hbegin hq (by omega)
    have hne : more ≠ [] := by
      rintro rfl
      exact hlonger (by rw [List.append_nil])
    have hsuffix : closing <:+ body ++ (closing ++ more) := by
      rw [← List.append_assoc]
      exact closing_suffix_of_whole hall
    have hmore : more <+: left := by
      have hrest := (List.prefix_append_right_inj ('/' :: '*' :: (body ++ closing))).1 hq
      exact hrest
    exact hlast ((closing_infix_of_suffix hsuffix hne).trans hmore.isInfix)

/-- Where no comment is found, none is found in less text. -/
theorem longestTaken_of_none (h : blockComment cs = 0) :
    LongestTaken blockComment cs (cs.take (blockComment cs)) := by
  rw [h, List.take_zero]
  refine ⟨List.nil_prefix, rfl, fun q hq hall => ?_⟩
  by_contra hsome
  have hpos : 0 < blockComment q := by
    rw [List.length_nil] at hsome
    omega
  obtain ⟨hbegin, hclosing⟩ := blockComment_pos_iff.1 hpos
  have hdrop : q.drop 2 <+: cs.drop 2 := hq.drop 2
  have hpos' := blockComment_pos_iff.2 ⟨hbegin.trans hq, hclosing.trans hdrop.isInfix⟩
  omega

theorem longestTaken_blockComment (h : ∀ cs', cs = '/' :: '*' :: cs' → Clear cs') :
    LongestTaken blockComment cs (cs.take (blockComment cs)) := by
  rcases Nat.eq_zero_or_pos (blockComment cs) with hzero | hpos
  · exact longestTaken_of_none hzero
  · obtain ⟨⟨cs, rfl⟩, hclosing⟩ := blockComment_pos_iff.1 hpos
    rcases Option.eq_none_or_eq_some (behind? 1 cs) with hopen | ⟨rest, hrest⟩
    · have hclear := (h cs rfl).resolve_left (not_not.2 hopen)
      obtain ⟨body, left, rfl, hremains, hlast⟩ := exists_last_closing hopen hclear hclosing
      exact longestTaken_of_last hremains hlast
    · exact longestTaken_of_closed hrest

/-- Nor does more of the text matter where nothing closes behind the comment. -/
theorem longestTaken_of_none_behind (h : ¬closing <:+: cs.drop (blockComment cs)) :
    LongestTaken blockComment cs (cs.take (blockComment cs)) := by
  rcases Nat.eq_zero_or_pos (blockComment cs) with hzero | hpos
  · exact longestTaken_of_none hzero
  · obtain ⟨⟨cs, rfl⟩, hclosing⟩ := blockComment_pos_iff.1 hpos
    have hends := fun hnone => remains?_eq_none_iff.1 hnone hclosing
    obtain ⟨k, hk⟩ := Option.ne_none_iff_exists'.1 hends
    obtain ⟨body, left, rfl, rfl⟩ := exists_body_of_remains? hk
    refine longestTaken_of_last hk ?_
    have hk : remains? (body ++ closing ++ left) = some left.length := by
      rw [List.append_assoc]
      exact hk
    have hbehind : ('/' :: '*' :: (body ++ closing ++ left)).drop
        (blockComment ('/' :: '*' :: (body ++ closing ++ left))) = left := by
      rw [blockComment_append hk, List.drop_succ_cons, List.drop_succ_cons, List.drop_left]
    rw [← hbehind, List.append_assoc]
    exact h

end Scan

end PipeQuery
