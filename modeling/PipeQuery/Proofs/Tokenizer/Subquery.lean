-- SUMMARY: Which subqueries of an explanation are closed by the bracket behind them, and which are not.
import PipeQuery.Proofs.Tokenizer.Ending

/-! # Subqueries

Behind `EXPLAIN [` a query is read on top of a root of its own, and the bracket behind it
should lead back. A closing bracket removes modes in an expression and in a setting only,
and an expression it leaves with the mode below. So it closes a query that ends in an
expression on its root, and no other: not one that ends in its sources or fields, nor one
that is empty or ends in an expression inside another. -/

namespace PipeQuery.Tokenizer

variable {t u : Tokenizer}

/-! ## Explanations -/

/-- A query with the words and brackets that ask for its explanation. -/
def explained (query : List Char) : List Char :=
  "EXPLAIN [".toList ++ (query ++ [']'])

/-- Whether the bracket at the end of a run is read as a closing one and leads back to
behind the command word. -/
def Closes (t : Tokenizer) : Prop :=
  ∃ v, Later t v ∧ v.rest = [']'] ∧ v.next.1.kind = .punctuation .closingBracket ∧
    v.next.2.modes.entries = [.explain, .default]

/-- Whether the limit refuses no push of a run. -/
def NothingDropped (t : Tokenizer) : Prop :=
  ∀ v, Later t v → v.modes.dropped = 0

instance (t : Tokenizer) : Decidable t.NothingDropped :=
  inferInstanceAs (Decidable (∀ v, Later t v → v.modes.dropped = 0))

instance (t : Tokenizer) : Decidable t.Closes :=
  inferInstanceAs (Decidable (∃ v, Later t v ∧ _ ∧ _ ∧ _))

theorem NothingDropped.next (h : t.NothingDropped) : t.next.2.NothingDropped :=
  fun v hv => h v hv.next

theorem closes_next_iff (h : t.rest ≠ [']']) : t.next.2.Closes ↔ t.Closes := by
  refine ⟨fun ⟨v, hv, hcloses⟩ => ⟨v, hv.next, hcloses⟩, ?_⟩
  rintro ⟨v, hv, hrest, hcloses⟩
  cases hv with
  | refl => exact absurd hrest h
  | next hv => exact ⟨v, hv, hrest, hcloses⟩

theorem not_closes_of_rest_nil (h : t.rest = []) : ¬t.Closes := by
  rintro ⟨v, hv, hrest, -⟩
  rw [(hv.of_rest_nil h).1] at hrest
  exact absurd hrest nofun

/-- At the end of a run the bracket alone decides. -/
theorem closes_iff_of_bracket (h : t.rest = [']']) :
    t.Closes ↔ t.next.1.kind = .punctuation .closingBracket ∧
      t.next.2.modes.entries = [.explain, .default] := by
  have hend : t.next.2.rest = [] := by
    rw [rest_next, h]
    exact List.drop_eq_nil_of_le (choose_length_pos _ _)
  refine ⟨?_, fun hcloses => ⟨t, .refl t, h, hcloses⟩⟩
  rintro ⟨v, hv, hrest, hcloses⟩
  cases hv with
  | refl => exact hcloses
  | next hv => exact absurd ⟨v, hv, hrest, hcloses⟩ (not_closes_of_rest_nil hend)

/-! ## The Bracket Behind a Query -/

/-- From an expression the bracket leads back if the expression lies on the root. -/
theorem entries_pop_pop_iff {s s' : ModeStack} (h : s.Over [.explain] s')
    (hmode : s.current = .expression) :
    (s'.applyAll [.pop, .pop]).entries = [.explain, .default] ↔
      s.entries = [.expression, .default] := by
  have hroot : s.current ≠ .default := by
    rw [hmode]
    exact nofun
  have hne : s.above ≠ [] := by
    intro hnil
    simp [ModeStack.current, hnil] at hroot
  have hright : s.entries = .expression :: s.pop.entries := by
    rw [ModeStack.entries_of_current_ne_default hroot, hmode]
  have hleft : (s'.applyAll [.pop, .pop]).entries = s'.pop.above.tail ++ [.default] := rfl
  rw [hleft, hright, (h.pop hne).above_eq, ModeStack.entries]
  cases s.pop.above with
  | nil => simp
  | cons m above =>
    refine iff_of_false (fun hback => ?_) (by simp)
    have hlength := congrArg List.length hback
    simp at hlength

/-- Where the query is behind, the bracket leads back from an expression on its root only. -/
theorem closes_iff_of_inside_end (h : Inside [.explain] t u) (hlayered : t.modes.Layered)
    (hrest : t.rest = []) : u.Closes ↔ t.EndsInExpression := by
  have hend : u.rest = [']'] := by
    rw [h.rest_eq, hrest]
    rfl
  have hne : u.rest ≠ [] := by
    rw [hend]
    exact List.cons_ne_nil _ _
  rw [closes_iff_of_bracket hend, endsInExpression_iff_of_rest_nil hrest, kind_next hne,
    modes_next hne, hend, h.mode_eq]
  by_cases hmode : t.mode = .expression
  · have hchoose : choose .expression [']'] =
        ⟨.punctuation .closingBracket, .default, 1, [.pop, .pop]⟩ := rfl
    rw [hmode, hchoose, ← entries_pop_pop_iff h.modes_over hmode]
    exact ⟨And.right, fun hleft => ⟨rfl, hleft⟩⟩
  · refine iff_of_false ?_ fun hends => hmode (mode_of_entries hends)
    -- Elsewhere it leaves the root of the query in its place.
    rintro ⟨-, hleft⟩
    have hdeep := Nat.le_trans (removes_choose_le t.mode [']'])
      (hlayered.removal_le fun hexpression => absurd hexpression hmode)
    have hdepth := h.modes_over.lt_depth_applyAll hdeep
    rw [← ModeStack.length_entries, hleft] at hdepth
    exact absurd hdepth (by decide)

/-- Behind a query, inside, the bracket closes if the query ends in an expression on its
root and if it is not swallowed on the way. -/
theorem closes_iff_of_inside (h : Inside [.explain] t u) (hlayered : t.modes.Layered)
    (hself : t.SelfContained) (hroom : u.NothingDropped) :
    u.Closes ↔ t.EndsInExpression ∧
      ∀ v, Later t v → v.rest ≠ [] → ¬Swallows v.mode v.rest := by
  induction t using run_induction generalizing u with
  | atEnd t hrest =>
    rw [closes_iff_of_inside_end h hlayered hrest, iff_self_and]
    intro _ v hv hne
    exact absurd (hv.of_rest_nil hrest).1 hne
  | before t hrest ih =>
    have hne : u.rest ≠ [']'] := by
      rw [h.rest_eq]
      simpa using hrest
    rw [← closes_next_iff hne]
    -- A token that takes the bracket in is the last one and leaves nothing to close.
    by_cases hno : Swallows t.mode t.rest
    · have hlength := lt_length_choose_of_swallows hno
      have hend : u.next.2.rest = [] := by
        rw [rest_next, h.mode_eq, h.rest_eq]
        refine List.drop_eq_nil_of_le ?_
        rw [List.length_append, List.length_singleton]
        exact hlength
      refine iff_of_false (not_closes_of_rest_nil hend) ?_
      rintro ⟨-, hnone⟩
      exact hnone t (.refl t) hrest hno
    · have hkept : u.next.2.modes.dropped = u.modes.dropped := by
        rw [hroom u (.refl u), hroom.next _ (.refl _)]
      have hnext := h.next hrest hlayered (hself.known t (.refl t)) hno (hself.own t (.refl t)) hkept
      rw [ih hnext (layered_next hlayered) hself.next hroom.next, endsInExpression_next_iff,
        and_congr_right_iff]
      rintro -
      refine ⟨?_, fun hnone v hv => hnone v hv.next⟩
      intro hnone v hv
      cases hv with
      | refl => exact fun _ => hno
      | next hv => exact hnone v hv

/-! ## The Bracket Before a Query -/

/-- A call before the bracket at the end. -/
theorem NothingDropped.exists_next (h : t.NothingDropped) {cs : List Char} (hrest : t.rest = cs)
    (hne : cs ≠ []) (hbracket : cs ≠ [']']) {kind : TokenKind} {channel : Channel} {n : Nat}
    {actions : List ModeAction} (hchoose : choose t.mode cs = ⟨kind, channel, n, actions⟩) :
    ∃ u : Tokenizer, Later t u ∧ u.NothingDropped ∧ u.rest = cs.drop n ∧
      u.modes = t.modes.applyAll actions ∧ (t.Closes ↔ u.Closes) := by
  subst hrest
  refine ⟨t.next.2, .next (.refl _), h.next, ?_, ?_, (closes_next_iff hbracket).symm⟩
  · rw [rest_next, hchoose]
  · rw [modes_next hne, hchoose]

theorem NothingDropped.above_of_push (h : t.NothingDropped) (hu : u.NothingDropped) {m : Mode}
    (hmodes : u.modes = t.modes.applyAll [.push m]) : u.modes.above = m :: t.modes.above := by
  have hkept : (t.modes.push m).dropped = t.modes.dropped := by
    have hpush : u.modes = t.modes.push m := hmodes
    rw [← hpush, h t (.refl t), hu u (.refl u)]
  rw [hmodes]
  exact (ModeStack.push_of_kept hkept).2

theorem mode_of_above {m : Mode} {above : List Mode} (h : t.modes.above = m :: above) :
    t.mode = m := by
  rw [mode, ModeStack.current, h]
  rfl

/-- Three calls lead to the query, and leave it a root of its own. -/
theorem exists_inside {limit : Nat} {query : List Char}
    (hroom : (start limit (explained query)).NothingDropped) :
    ∃ u, Later (start limit (explained query)) u ∧ Inside [.explain] (start limit query) u ∧
      u.NothingDropped ∧ ((start limit (explained query)).Closes ↔ u.Closes) := by
  generalize hbehind : query ++ [']'] = behind
  have hrest : (start limit (explained query)).rest = "EXPLAIN [".toList ++ behind := by
    rw [← hbehind]
    rfl
  -- The command word, the blank behind it and the bracket take one call each.
  have hword : choose .default ("EXPLAIN [".toList ++ behind) =
      ⟨.command .explain, .default, 7, [.push .explain]⟩ := rfl
  obtain ⟨t, hlater₁, hroom₁, hrest₁, hmodes₁, hcloses₁⟩ :=
    hroom.exists_next hrest (by simp) (by simp) hword
  have hrest₁ : t.rest = " [".toList ++ behind := hrest₁
  have habove₁ : t.modes.above = [.explain] := hroom.above_of_push hroom₁ hmodes₁
  have hblank : choose t.mode (" [".toList ++ behind) =
      ⟨.trivia .explain .whitespace, .hidden, 1, []⟩ := by
    rw [mode_of_above habove₁]
    rfl
  obtain ⟨v, hlater₂, hroom₂, hrest₂, hmodes₂, hcloses₂⟩ :=
    hroom₁.exists_next hrest₁ (by simp) (by simp) hblank
  have hrest₂ : v.rest = "[".toList ++ behind := hrest₂
  have habove₂ : v.modes.above = [.explain] := hmodes₂ ▸ habove₁
  have hbracket : choose v.mode ("[".toList ++ behind) =
      ⟨.punctuation .openingBracket, .default, 1, [.push .default]⟩ := by
    rw [mode_of_above habove₂]
    rfl
  obtain ⟨u, hlater₃, hroom₃, hrest₃, hmodes₃, hcloses₃⟩ :=
    hroom₂.exists_next hrest₂ (by simp) (by simp) hbracket
  have habove₃ := hroom₂.above_of_push hroom₃ hmodes₃
  refine ⟨u, hlater₁.trans (hlater₂.trans hlater₃), ⟨?_, ?_, ?_⟩, hroom₃,
    hcloses₁.trans (hcloses₂.trans hcloses₃)⟩
  · rw [hrest₃, ← hbehind]
    rfl
  · rw [habove₃, habove₂]
    rfl
  · rw [hmodes₃, ModeStack.limit_applyAll, hmodes₂, ModeStack.limit_applyAll, hmodes₁,
      ModeStack.limit_applyAll]
    rfl

/-- The bracket behind a query closes it and leads back behind the command word exactly if
the query ends in an expression on its root, and not with a path behind which it would be
read. A query that closes its own root is another matter: its explanation ends before. -/
theorem closes_explained_iff {limit : Nat} {query : List Char}
    (hself : (start limit query).SelfContained)
    (hroom : (start limit (explained query)).NothingDropped) :
    (start limit (explained query)).Closes ↔
      (start limit query).EndsInExpression ∧ ¬(start limit query).EndsAsPath := by
  obtain ⟨u, -, hinside, hroom', hcloses⟩ := exists_inside hroom
  have hlayered : (start limit query).modes.Layered := ModeStack.layered_withLimit limit
  rw [hcloses, closes_iff_of_inside hinside hlayered hself hroom', and_congr_right_iff]
  intro hends
  rw [endsAsPath_iff hlayered hself hends]
  simp only [not_exists, not_and]

/-- A list in brackets, a pipe, and then an expression on the root of the query. -/
theorem closes_explained_of_limit :
    (start 8 "ROW [1] | LIMIT 1".toList).SelfContained ∧
      (start 8 (explained "ROW [1] | LIMIT 1".toList)).NothingDropped ∧
      (start 8 (explained "ROW [1] | LIMIT 1".toList)).Closes := by
  have hself : (start 8 "ROW [1] | LIMIT 1".toList).SelfContained := by decide +kernel
  have hroom : (start 8 (explained "ROW [1] | LIMIT 1".toList)).NothingDropped := by decide +kernel
  exact ⟨hself, hroom, (closes_explained_iff hself hroom).2 (by decide +kernel)⟩

/-- The bracket behind a query that ends in the arguments of its command is unknown text,
although the query is known, visible to its end and without brackets of its own. -/
theorem not_closes_explained_of_show :
    (∀ token ∈ (start 256 "SHOW info".toList).tokens, token.kind ≠ .unknown ∧
      token.kind ≠ .punctuation .openingBracket ∧ token.kind ≠ .punctuation .closingBracket) ∧
    (start 256 "SHOW info".toList).tokens.dropLast.getLast?.map (·.channel) = some .default ∧
    (start 256 (explained "SHOW info".toList)).NothingDropped ∧
    ¬(start 256 (explained "SHOW info".toList)).Closes := by
  decide +kernel

end PipeQuery.Tokenizer
