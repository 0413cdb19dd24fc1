-- SUMMARY: Under any requests a token stream is a cursor on the list of the tokens that parsers see.
import PipeQuery.Stream.Basic
import PipeQuery.Tokenizer

/-! # Cursors

Parsers pass tokens, ask for a kind, save their place and go back to it. What such a request
answers and where it leads is said first for a plain list and a place on it. A stream does just
that on the tokens it does not hide, and nothing of it but the cursor ever changes. -/

namespace PipeQuery

namespace TokenStream

/-! ## Requests -/

/-- What a parser asks of a stream. -/
inductive Request where
  | advance
  | advanceIf (kind : TokenKind)
  | expect (kind : TokenKind)
  | save
  /-- Goes back to a saved place, or to any other number. -/
  | restore (place : Nat)
  deriving DecidableEq, Repr

inductive Answer where
  /-- The token that is current now. -/
  | current (token? : Option Token)
  | passed (matched : Bool)
  | expected (result : Except StreamError Token)
  | saved (place : Nat)
  | restored

/-- The answer to a request and the stream after it. -/
def perform (s : TokenStream) : Request → Answer × TokenStream
  | .advance => (.current s.advance.current?, s.advance)
  | .advanceIf kind => (.passed (s.advanceIf kind).1, (s.advanceIf kind).2)
  | .expect kind => (.expected (s.expect kind).1, (s.expect kind).2)
  | .save => (.saved s.cursor, s)
  | .restore place => (.restored, s.restore place)

/-- The answers to requests, one after another, and the stream after them. -/
def performAll (s : TokenStream) : List Request → List Answer × TokenStream
  | [] => ([], s)
  | request :: requests =>
    let (answer, next) := s.perform request
    let (answers, last) := next.performAll requests
    (answer :: answers, last)

/-! ## Cursors on Lists -/

/-- What a request does at a place on a list: its answer, and the place it leads to. Only a
token of the right kind is passed on request; any other stays the current one. -/
inductive Moves (tokens : List Token) : Nat → Request → Answer → Nat → Prop where
  | advance {c : Nat} : c < tokens.length →
      Moves tokens c .advance (.current tokens[c + 1]?) (c + 1)
  | advanceAtEnd : Moves tokens tokens.length .advance (.current none) tokens.length
  | pass {c : Nat} {t : Token} {kind : TokenKind} : tokens[c]? = some t → t.kind = kind →
      Moves tokens c (.advanceIf kind) (.passed true) (c + 1)
  | stay {c : Nat} {kind : TokenKind} : (∀ t, tokens[c]? = some t → t.kind ≠ kind) →
      Moves tokens c (.advanceIf kind) (.passed false) c
  | take {c : Nat} {t : Token} {kind : TokenKind} : tokens[c]? = some t → t.kind = kind →
      Moves tokens c (.expect kind) (.expected (.ok t)) (c + 1)
  | refuse {c : Nat} {t : Token} {kind : TokenKind} : tokens[c]? = some t → t.kind ≠ kind →
      Moves tokens c (.expect kind) (.expected (.error (.unexpectedToken kind t.kind t.span))) c
  | refuseAtEnd {kind : TokenKind} :
      Moves tokens tokens.length (.expect kind) (.expected (.error (.unexpectedEnd kind)))
        tokens.length
  | save {c : Nat} : Moves tokens c .save (.saved c) c
  | restore {c place : Nat} :
      Moves tokens c (.restore place) .restored (min place tokens.length)

/-- What requests do, one after another. -/
inductive Course (tokens : List Token) : Nat → List Request → List Answer → Nat → Prop where
  | nil {c : Nat} : Course tokens c [] [] c
  | cons {c d e : Nat} {request : Request} {answer : Answer} {requests : List Request}
      {answers : List Answer} : Moves tokens c request answer d →
      Course tokens d requests answers e →
      Course tokens c (request :: requests) (answer :: answers) e

section Lists

variable {tokens : List Token} {c : Nat}

/-- Every request has an answer, and none leads beyond the end. -/
theorem exists_moves (h : c ≤ tokens.length) (request : Request) :
    ∃ answer d, Moves tokens c request answer d ∧ d ≤ tokens.length := by
  have hnext {t : Token} (ht : tokens[c]? = some t) : c + 1 ≤ tokens.length :=
    (List.getElem?_eq_some_iff.1 ht).1
  -- Every request has a rule for each case of what is found at the cursor.
  cases request with
  | advance =>
    rcases Nat.lt_or_eq_of_le h with hlt | rfl
    · exact ⟨_, _, .advance hlt, hlt⟩
    · exact ⟨_, _, .advanceAtEnd, h⟩
  | advanceIf kind =>
    by_cases hkind : ∃ t, tokens[c]? = some t ∧ t.kind = kind
    · obtain ⟨t, ht, hkind⟩ := hkind
      exact ⟨_, _, .pass ht hkind, hnext ht⟩
    · exact ⟨_, _, .stay fun t ht hsame => hkind ⟨t, ht, hsame⟩, h⟩
  | expect kind =>
    cases ht : tokens[c]? with
    | none =>
      obtain rfl : tokens.length = c := Nat.le_antisymm (List.getElem?_eq_none_iff.1 ht) h
      exact ⟨_, _, .refuseAtEnd, h⟩
    | some t =>
      by_cases hkind : t.kind = kind
      · exact ⟨_, _, .take ht hkind, hnext ht⟩
      · exact ⟨_, _, .refuse ht hkind, h⟩
  | save => exact ⟨_, _, .save, h⟩
  | restore place => exact ⟨_, _, .restore, Nat.min_le_right _ _⟩

theorem exists_course (h : c ≤ tokens.length) (requests : List Request) :
    ∃ answers d, Course tokens c requests answers d ∧ d ≤ tokens.length := by
  induction requests generalizing c with
  | nil => exact ⟨_, _, .nil, h⟩
  | cons request requests ih =>
    obtain ⟨answer, d, hmoves, hd⟩ := exists_moves h request
    obtain ⟨answers, e, hcourse, he⟩ := ih hd
    exact ⟨_, _, .cons hmoves hcourse, he⟩

end Lists

/-! ## Streams as Cursors -/

/-- The tokens that parsers see. -/
def visible (s : TokenStream) : List Token := s.tokens.filter Token.isSignificant

/-- The same stream with its cursor at another place. -/
def moveTo (s : TokenStream) (place : Nat) : TokenStream := { s with cursor := place }

section Streams

variable {s : TokenStream} {c : Nat}

@[simp] theorem size_moveTo : (s.moveTo c).size = s.visible.length := size_eq _

theorem peekAhead?_moveTo (n : Nat) : (s.moveTo c).peekAhead? n = s.visible[c + n]? :=
  peekAhead?_eq _ _

@[simp] theorem current?_moveTo : (s.moveTo c).current? = s.visible[c]? := peekAhead?_moveTo 0

theorem advance_of_lt (h : c < s.visible.length) : (s.moveTo c).advance = s.moveTo (c + 1) := by
  rw [advance, size_moveTo]
  exact if_pos h

theorem advance_of_le (h : s.visible.length ≤ c) : (s.moveTo c).advance = s.moveTo c := by
  rw [advance, size_moveTo]
  exact if_neg (Nat.not_lt.2 h)

theorem advance_of_current? {t : Token} (h : s.visible[c]? = some t) :
    (s.moveTo c).advance = s.moveTo (c + 1) :=
  advance_of_lt (List.getElem?_eq_some_iff.1 h).1

/-- A stream performs a request as a cursor on its visible tokens does. -/
theorem perform_of_moves {request : Request} {answer : Answer} {d : Nat}
    (h : Moves s.visible c request answer d) :
    (s.moveTo c).perform request = (answer, s.moveTo d) := by
  cases h with
  | advance hlt => rw [perform, advance_of_lt hlt, current?_moveTo]
  | advanceAtEnd =>
    rw [perform, advance_of_le (Nat.le_refl _), current?_moveTo,
      List.getElem?_eq_none (Nat.le_refl _)]
  | pass ht hkind =>
    simp only [perform, advanceIf, current?_moveTo, ht, hkind, if_true, advance_of_current? ht]
  | stay hother =>
    simp only [perform, advanceIf, current?_moveTo]
    cases ht : s.visible[c]? with
    | none => rfl
    | some t => simp only [hother t ht, if_false]
  | take ht hkind =>
    simp only [perform, expect, current?_moveTo, ht, hkind, if_true, advance_of_current? ht]
  | refuse ht hkind => simp only [perform, expect, current?_moveTo, ht, hkind, if_false]
  | refuseAtEnd =>
    simp only [perform, expect, current?_moveTo, List.getElem?_eq_none (Nat.le_refl _)]
  | save => rfl
  | restore => rw [perform, restore, size_moveTo]; rfl

theorem performAll_of_course {requests : List Request} {answers : List Answer} {d : Nat}
    (h : Course s.visible c requests answers d) :
    (s.moveTo c).performAll requests = (answers, s.moveTo d) := by
  induction h with
  | nil => rfl
  | cons hmoves _ ih => simp only [performAll, perform_of_moves hmoves, ih]

end Streams

/-! ## Any Requests -/

/-- A stream answers requests as a cursor on the list of its significant tokens does, and is
left with the cursor where that one is; nothing else of it changes. From there it sees the
rest of the list, except for places whose number does not fit in a machine word. -/
theorem performAll_eq_course (tokens : List Token) (source? : Option SourceMap)
    (requests : List Request) :
    let s := ofTokens tokens source?
    let visible := tokens.filter Token.isSignificant
    ∃ answers c, s.performAll requests = (answers, s.moveTo c) ∧ c ≤ visible.length ∧
      (∀ answers' c', Course visible 0 requests answers' c' ↔ answers' = answers ∧ c' = c) ∧
      ((s.moveTo c).isAtEnd = true ↔ c = visible.length) ∧
      ∀ n, (s.moveTo c).lookAhead n =
        if c + n < UInt64.size then .ok visible[c + n]? else .error .overflow := by
  intro s visible
  obtain ⟨answers, c, hcourse, hc⟩ := exists_course (Nat.zero_le visible.length) requests
  have hrun : ∀ {answers' c'}, Course visible 0 requests answers' c' →
      s.performAll requests = (answers', s.moveTo c') :=
    fun h => performAll_of_course (s := s) h
  refine ⟨answers, c, hrun hcourse, hc, ?_, ?_, ?_⟩
  -- The stream follows every course there is, so there is only one.
  · intro answers' c'
    constructor
    · intro hcourse'
      obtain ⟨hanswers, hstreams⟩ := Prod.mk.inj ((hrun hcourse').symm.trans (hrun hcourse))
      exact ⟨hanswers, congrArg TokenStream.cursor hstreams⟩
    · rintro ⟨rfl, rfl⟩
      exact hcourse
  · rw [isAtEnd, size_moveTo, decide_eq_true_eq]
    exact ⟨Nat.le_antisymm hc, fun h => Nat.le_of_eq h.symm⟩
  · intro n
    rw [lookAhead, peekAhead?_moveTo]
    rfl

/-- One place behind the beginning, the largest machine word is no place to look ahead to. -/
theorem lookAhead_ne_of_overflow :
    let s := (ofTokens (Tokenizer.start 256 "ROW a".toList).tokens none).advance
    s.lookAhead (UInt64.size - 1) ≠
      .ok (s.tokens.filter Token.isSignificant)[s.cursor + (UInt64.size - 1)]? := by
  intro s
  have hcursor : s.cursor = 1 := by decide +kernel
  rw [lookAhead, hcursor]
  exact nofun

end TokenStream

end PipeQuery
