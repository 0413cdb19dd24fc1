-- SUMMARY: A query that closes its own root ends its explanation there, and the bracket behind it is left to the words of explanations.
import PipeQuery.Proofs.Tokenizer.Subquery

/-! # Early Ends

A bracket that opens nothing, as among sources, may have a counterpart in an expression, which
closes it: brackets that are balanced do not keep a query from closing its own root. Its
explanation ends there. What the query does from then on when it stands alone says nothing
about the explanation any more, where its text is read behind the command word. -/

namespace PipeQuery

/-- One rule reads a closing bracket, and in an expression it closes two levels. -/
theorem Mode.rules_of_closingBracket (mode : Mode) :
    ∀ rule ∈ mode.rules, rule.kind = .punctuation .closingBracket →
      rule.recognizer = .literal [']'] ∧ (mode = .expression → rule.actions = [.pop, .pop]) := by
  cases mode <;> decide

namespace Tokenizer

variable {t u : Tokenizer}

/-- Whether the next token is a bracket that closes an expression with nothing but the root
below it. -/
def ClosesRoot (t : Tokenizer) : Prop :=
  t.mode = .expression ∧ t.next.1.kind = .punctuation .closingBracket ∧ t.modes.depth ≤ 2

/-! ## Brackets -/

theorem exists_rule_of_closingBracket (h : t.next.1.kind = .punctuation .closingBracket) :
    ∃ cs, t.rest = ']' :: cs ∧ ∃ rule ∈ t.mode.rules, rule.kind = .punctuation .closingBracket ∧
      (choose t.mode t.rest).actions = rule.actions := by
  have hrest : t.rest ≠ [] := by
    intro hrest
    rw [next_of_rest_nil hrest] at h
    exact absurd h nofun
  rw [kind_next hrest] at h
  have hknown : (choose t.mode t.rest).kind ≠ .unknown := by
    rw [h]
    exact nofun
  obtain ⟨rule, hrule, hchoose⟩ := exists_rule_of_known hknown
  have hpos := choose_length_pos t.mode t.rest
  rw [hchoose] at h hpos
  rw [(t.mode.rules_of_closingBracket rule hrule h).1] at hpos
  refine ⟨t.rest.tail, List.eq_cons_of_mem_head? (Scan.head?_of_fixed_pos hpos), rule, hrule, h, ?_⟩
  rw [hchoose]

/-- No text that begins with a bracket takes in the one behind it. -/
theorem not_swallows_bracket (cs : List Char) : ¬Swallows .expression (']' :: cs) := by
  rintro ⟨rule, hrule, htakes, hall⟩
  rcases Mode.expression.rules_of_takesBracket rule hrule htakes with
    hcomment | ⟨-, hmode⟩ | ⟨-, hmode⟩
  · rw [hcomment] at hall
    exact absurd hall nofun
  · exact absurd hmode nofun
  · exact absurd hmode (by decide)

/-- A query that takes in a bracket behind it has no closing one of its own left, or goes on in
an enrichment. -/
theorem not_closesRoot_of_swallows (hlayered : t.modes.Layered) (hroot : ¬t.ClosesRoot)
    (h : Swallows t.mode t.rest) (hu : Later t u) : ¬u.ClosesRoot := by
  -- A comment or a path ends the text, and behind a policy name the enrichment goes on.
  have hbracket : ']' ∉ t.next.2.rest ∨ t.InEnrichment := by
    obtain ⟨rule, hrule, htakes, hall⟩ := h
    rcases t.mode.rules_of_takesBracket rule hrule htakes with
      hcomment | ⟨hpolicy, hmode⟩ | ⟨hpath, -⟩
    · rw [hcomment] at hall
      rw [(hidden_of_lineComment hall).1]
      exact .inl List.not_mem_nil
    · rw [hpolicy] at hall
      rcases Scan.policyName_bracket t.rest with hsame | ⟨hpipe, -⟩
      · have hle := Scan.policyName_le_length t.rest
        exact absurd (hsame.symm.trans hall) (by omega)
      · exact .inr ⟨hlayered, hpipe, List.mem_cons.2 (.inl hmode)⟩
    · rw [hpath] at hall
      refine .inl ?_
      rcases rest_next_of_path hrule hpath hall with hrest | hrest <;> rw [hrest] <;> decide
  rintro ⟨hmode, hkind, hdepth⟩
  rcases hbracket with hnone | henrich
  · cases hu with
    | refl => exact hroot ⟨hmode, hkind, hdepth⟩
    | next hu =>
      have hkept : ']' ∉ u.rest := by
        refine hu.keeps (P := fun v => ']' ∉ v.rest) (fun v hv => ?_) hnone
        rw [rest_next]
        exact fun hmem => hv (List.mem_of_mem_drop hmem)
      obtain ⟨cs, hrest, -⟩ := exists_rule_of_closingBracket hkind
      rw [hrest] at hkept
      exact hkept List.mem_cons_self
  · have hlater := (hu.keeps (fun _ => InEnrichment.next) henrich).mode_mem
    rw [hmode] at hlater
    exact absurd hlater (by decide)

/-! ## Ends -/

/-- Inside, the bracket that closes the root of the query leads back behind the command word. -/
theorem Inside.next_of_closesRoot (h : Inside [.explain] t u) (hroot : t.ClosesRoot) :
    u.next.1.kind = .punctuation .closingBracket ∧
      u.next.2.modes.entries = [.explain, .default] := by
  obtain ⟨hmode, hkind, hdepth⟩ := hroot
  obtain ⟨cs, hrest, rule, hrule, hclosing, hactions⟩ := exists_rule_of_closingBracket hkind
  have hne : t.rest ≠ [] := by
    rw [hrest]
    exact List.cons_ne_nil _ _
  have hne' : u.rest ≠ [] := by
    rw [h.rest_eq]
    exact List.append_ne_nil_of_left_ne_nil hne _
  rw [kind_next hne] at hkind
  have hchoose : choose u.mode u.rest = choose t.mode t.rest := by
    rw [h.mode_eq, h.rest_eq]
    refine choose_bracket hne ?_ ?_
    · rw [hmode, hrest]
      exact not_swallows_bracket cs
    · rw [hkind]
      exact nofun
  refine ⟨by rw [kind_next hne', hchoose, hkind], ?_⟩
  -- With nothing but the root below, the expression is all that lies above it.
  have habove : t.modes.above = [.expression] := by
    have hcurrent : t.modes.current = .expression := hmode
    rw [ModeStack.depth] at hdepth
    rw [ModeStack.current] at hcurrent
    revert hcurrent hdepth
    generalize t.modes.above = above
    rcases above with _ | ⟨m, _ | ⟨n, above⟩⟩
    · intro _ hcurrent
      cases hcurrent
    · intro _ hcurrent
      exact congrArg ([·]) hcurrent
    · intro hdepth
      simp at hdepth
  have hpops := (t.mode.rules_of_closingBracket rule hrule hclosing).2 hmode
  have htwice : (u.modes.applyAll [.pop, .pop]).entries =
      u.modes.above.tail.tail ++ [.default] := rfl
  rw [modes_next hne', hchoose, hactions, hpops, htwice, h.modes_over.above_eq, habove]
  rfl

/-- The first bracket that closes the root of a query leads back, wherever it stands. -/
theorem Inside.exists_early (h : Inside [.explain] t u) (hlayered : t.modes.Layered)
    (hknown : ∀ v, Later t v → v.next.1.kind ≠ .unknown) (hroom : u.NothingDropped)
    {v : Tokenizer} (hv : Later t v) (hroot : v.ClosesRoot) :
    ∃ v w, Later t v ∧ v.ClosesRoot ∧ Later u w ∧ w.rest = v.rest ++ [']'] ∧
      w.next.1.kind = .punctuation .closingBracket ∧
      w.next.2.modes.entries = [.explain, .default] := by
  induction hv generalizing u with
  | refl => exact ⟨_, u, .refl _, hroot, .refl u, h.rest_eq, h.next_of_closesRoot hroot⟩
  | @next t v hv ih =>
    by_cases hnow : t.ClosesRoot
    · exact ⟨t, u, .refl t, hnow, .refl u, h.rest_eq, h.next_of_closesRoot hnow⟩
    have hno : ¬Swallows t.mode t.rest :=
      fun hswallows => not_closesRoot_of_swallows hlayered hnow hswallows hv.next hroot
    have hrest : t.rest ≠ [] := by
      intro hrest
      obtain ⟨cs, hcons, -⟩ := exists_rule_of_closingBracket hroot.2.1
      rw [(hv.next.of_rest_nil hrest).1] at hcons
      exact absurd hcons nofun
    have hlist : t.mode = .expression → t.next.1.kind = .punctuation .closingBracket →
        2 < t.modes.depth :=
      fun hmode hkind => Nat.lt_of_not_le fun hdepth => hnow ⟨hmode, hkind, hdepth⟩
    have hkept : u.next.2.modes.dropped = u.modes.dropped := by
      rw [hroom u (.refl u), hroom.next _ (.refl _)]
    have hnext := h.next hrest hlayered (hknown t (.refl t)) hno hlist hkept
    obtain ⟨v, w, hv, hroot, hw, hends⟩ :=
      ih hnext (layered_next hlayered) (fun v hv => hknown v hv.next) hroom.next hroot
    exact ⟨v, w, hv.next, hroot, hw.next, hends⟩

/-- The explanation of a known query that closes its own root ends at such a bracket of the
query, which is read before the one behind it. -/
theorem closes_early {limit : Nat} {query : List Char}
    (hknown : ∀ v, Later (start limit query) v → v.next.1.kind ≠ .unknown)
    (hroom : (start limit (explained query)).NothingDropped)
    (hroot : ∃ v, Later (start limit query) v ∧ v.ClosesRoot) :
    ∃ v w, Later (start limit query) v ∧ v.ClosesRoot ∧
      Later (start limit (explained query)) w ∧ w.rest = v.rest ++ [']'] ∧
      w.next.1.kind = .punctuation .closingBracket ∧
      w.next.2.modes.entries = [.explain, .default] := by
  obtain ⟨v, hv, hroot⟩ := hroot
  obtain ⟨u, hu, hinside, hroom', -⟩ := exists_inside hroom
  obtain ⟨v, w, hv, hroot, hw, hends⟩ :=
    hinside.exists_early (ModeStack.layered_withLimit limit) hknown hroom' hv hroot
  exact ⟨v, w, hv, hroot, hu.trans hw, hends⟩

/-- This query is known text, its brackets are balanced and it ends in an expression on its
root, but a bracket closed its root before: the one behind it is not read as a bracket. -/
example :
    let query := "FROM [ | ROW ]ROW 1".toList
    (∀ token ∈ (start 8 query).tokens, token.kind ≠ .unknown) ∧
      (start 8 query).EndsInExpression ∧ ¬(start 8 query).EndsAsPath ∧
      (start 8 (explained query)).NothingDropped ∧ ¬(start 8 (explained query)).Closes ∧
      (start 8 (explained query)).tokens.dropLast.getLast?.map (·.kind) = some .unknown := by
  decide +kernel

/-- Nor is it where the limit refuses the query a root of its own. -/
example :
    (start 2 "ROW 1".toList).SelfContained ∧ (start 2 "ROW 1".toList).EndsInExpression ∧
      (start 2 (explained "ROW 1".toList)).tokens.dropLast.getLast?.map (·.kind) =
        some .unknown := by
  decide +kernel

end Tokenizer

end PipeQuery
