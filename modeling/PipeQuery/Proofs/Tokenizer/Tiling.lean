-- SUMMARY: The tokens of a run tile its text and end with one end of input, however they are asked for.
import Mathlib.Data.List.Chain
import PipeQuery.Proofs.Position.Width
import PipeQuery.Proofs.Text.Offsets
import PipeQuery.Proofs.Tokenizer.Run

/-! # Tilings

Cut into pieces, a text determines the spans of its tokens: each token covers the
piece it begins with, and the next one begins where that piece stops. A run
yields such a tiling, whatever the modes and the depth limit do. -/

namespace PipeQuery

/-! ## Tilings of a Text -/

/-- Tokens that cut a text, which begins at a position, into pieces without gaps,
and close it with the end of input. -/
inductive Tiling : Position → List Char → List Token → Prop where
  | eof (p : Position) : Tiling p [] [.eof p]
  | token {p : Position} {piece rest : List Char} {token : Token} {tokens : List Token} :
      piece ≠ [] → token.text.toList = piece → token.span = .covering p piece →
      token.kind ≠ .eof → Tiling (p.advanceOver piece) rest tokens →
      Tiling p (piece ++ rest) (token :: tokens)

namespace Tiling

variable {p : Position} {cs : List Char} {tokens : List Token}

theorem head?_start (h : Tiling p cs tokens) :
    tokens.head?.map (·.span.start) = some p := by
  cases h with
  | eof => rfl
  | token _ _ hspan => simp [hspan, Span.covering]

theorem ne_nil (h : Tiling p cs tokens) : tokens ≠ [] := by
  cases h <;> exact List.cons_ne_nil _ _

/-- Each token begins where the one before it stops. -/
theorem isChain (h : Tiling p cs tokens) :
    tokens.IsChain fun t u => u.span.start = t.span.stop := by
  induction h with
  | eof p => exact List.isChain_singleton _
  | token _ _ hspan _ hrest ih =>
    refine List.isChain_cons.2 ⟨?_, ih⟩
    intro next hnext
    have hstart := hrest.head?_start
    rw [Option.mem_def.1 hnext] at hstart
    rw [hspan]
    exact Option.some.inj hstart

theorem getLast? (h : Tiling p cs tokens) :
    tokens.getLast? = some (.eof (p.advanceOver cs)) := by
  induction h with
  | eof p => rfl
  | token _ _ _ _ hrest ih =>
    rw [List.getLast?_cons_of_ne_nil hrest.ne_nil, ih, Position.advanceOver_append]

/-- The texts of the tokens make up the text. -/
theorem flatMap_text (h : Tiling p cs tokens) : tokens.flatMap (·.text.toList) = cs := by
  induction h with
  | eof p => rfl
  | token _ htext _ _ _ ih => rw [List.flatMap_cons, htext, ih]

/-- Only the last token is the end of input. -/
theorem filter_not_isEof (h : Tiling p cs tokens) :
    tokens.filter (fun t => !t.isEof) = tokens.dropLast := by
  induction h with
  | eof p => rfl
  | token _ _ _ hkind hrest ih =>
    rw [List.filter_cons_of_pos (by simpa [Token.isEof] using hkind), ih,
      List.dropLast_cons_of_ne_nil hrest.ne_nil]

theorem countP_isEof (h : Tiling p cs tokens) : tokens.countP Token.isEof = 1 := by
  induction h with
  | eof p => rfl
  | token _ _ _ hkind _ ih =>
    rw [List.countP_cons_of_neg (by simpa [Token.isEof] using hkind), ih]

/-- There is no more than one token for each character and the end of input. -/
theorem length_le (h : Tiling p cs tokens) : tokens.length ≤ cs.length + 1 := by
  induction h with
  | eof p => exact Nat.le_refl _
  | token hpiece _ _ _ _ ih =>
    have hpos := List.length_pos_iff.2 hpiece
    simp only [List.length_cons, List.length_append]
    omega

/-- Every token covers the text between two places of the whole text, which the
tokens before it have reached. -/
theorem covering_of_mem (h : Tiling p cs tokens) :
    ∀ t ∈ tokens, ∃ before after, cs = before ++ (t.text.toList ++ after) ∧
      t.span = .covering (p.advanceOver before) t.text.toList := by
  induction h with
  | eof p =>
    intro t ht
    rw [List.mem_singleton.1 ht]
    exact ⟨[], [], rfl, rfl⟩
  | @token p piece rest token tokens hpiece htext hspan hkind hrest ih =>
    intro t ht
    rcases List.mem_cons.1 ht with rfl | ht
    · exact ⟨[], rest, by rw [htext, List.nil_append], by rw [hspan, htext]; rfl⟩
    · obtain ⟨before, after, hcs, ht⟩ := ih t ht
      refine ⟨piece ++ before, after, by rw [hcs, List.append_assoc], ?_⟩
      rw [ht, Position.advanceOver_append]

theorem slice?_of_mem (h : Tiling .start cs tokens) :
    ∀ t ∈ tokens, Text.slice? t.span.start.offset t.span.stop.offset cs = some t.text.toList := by
  intro t ht
  obtain ⟨before, after, hcs, hspan⟩ := h.covering_of_mem t ht
  have hslice := Text.slice?_size_append before t.text.toList after
  rw [← hcs] at hslice
  simpa [hspan, Span.covering, Position.start] using hslice

theorem of_mem_dropLast (h : Tiling p cs tokens) :
    ∀ t ∈ tokens.dropLast, t.text ≠ "" ∧ t.kind ≠ .eof := by
  induction h with
  | eof p => exact fun t ht => absurd ht List.not_mem_nil
  | @token p piece rest token tokens hpiece htext hspan hkind hrest ih =>
    intro t ht
    rw [List.dropLast_cons_of_ne_nil hrest.ne_nil] at ht
    rcases List.mem_cons.1 ht with rfl | ht
    · refine ⟨?_, hkind⟩
      rintro hempty
      exact hpiece (by rw [← htext, hempty]; rfl)
    · exact ih t ht

/-- Counting on over each token's text overflows nowhere exactly if counting over the text does
not. -/
theorem forall_advanceOver32?_iff (h : Tiling p cs tokens) :
    (∀ t ∈ tokens, t.span.start.advanceOver32? t.text.toList = some t.span.stop) ↔
      p.advanceOver32? cs = some (p.advanceOver cs) := by
  induction h with
  | eof p => exact iff_of_true (fun t ht => by rw [List.mem_singleton.1 ht]; rfl) rfl
  | @token p piece rest token tokens _ htext hspan _ hrest ih =>
    rw [List.forall_mem_cons, ih, hspan, htext, Position.advanceOver_append,
      Position.advanceOver32?_append, Option.bind_eq_some_iff]
    constructor
    · rintro ⟨hpiece, hlater⟩
      exact ⟨_, hpiece, hlater⟩
    · rintro ⟨q, hpiece, hlater⟩
      obtain rfl := Position.advanceOver_of_advanceOver32? hpiece
      exact ⟨hpiece, hlater⟩

/-- Tokens are placed in 32 bits exactly if the lines of their text are short enough and few
enough. -/
theorem advanceOver32?_iff (h : Tiling .start cs tokens) :
    (∀ t ∈ tokens, t.span.start.advanceOver32? t.text.toList = some t.span.stop) ↔
      Text.Narrow cs := by
  rw [h.forall_advanceOver32?_iff, Position.advanceOver32?_start_iff]

end Tiling

/-- What tokens that tile a text from its beginning look like from outside. -/
structure TilesText (text : List Char) (tokens : List Token) : Prop where
  first : tokens.head?.map (·.span.start.offset) = some 0
  adjacent : tokens.IsChain fun t u => u.span.start.offset = t.span.stop.offset
  body : ∀ t ∈ tokens.dropLast, t.kind ≠ .eof ∧ t.text ≠ "" ∧
    Text.slice? t.span.start.offset t.span.stop.offset text = some t.text.toList
  last : ∃ t, tokens.getLast? = some t ∧ t.kind = .eof ∧ t.text = "" ∧
    t.span.start.offset = Text.size text ∧ t.span.stop.offset = Text.size text
  count : (tokens.filter fun t => !t.isEof).length ≤ text.length
  texts : tokens.flatMap (·.text.toList) = text

theorem Tiling.tilesText {text : List Char} {tokens : List Token}
    (h : Tiling .start text tokens) : TilesText text tokens where
  first := by
    have hstart := congrArg (Option.map Position.offset) h.head?_start
    rwa [Option.map_map] at hstart
  adjacent := h.isChain.imp fun _ _ hstart => congrArg Position.offset hstart
  body := by
    intro t ht
    obtain ⟨htext, hkind⟩ := h.of_mem_dropLast t ht
    exact ⟨hkind, htext, h.slice?_of_mem t (List.mem_of_mem_dropLast ht)⟩
  last := by
    refine ⟨_, h.getLast?, rfl, rfl, ?_⟩
    simp [Token.eof, Span.empty, Position.start]
  count := by
    have hlen := h.length_le
    rw [h.filter_not_isEof, List.length_dropLast]
    omega
  texts := h.flatMap_text

namespace Tokenizer

/-! ## Tokens of a Run -/

/-- The tokens of a run tile its unread text. -/
theorem tiling_tokens (t : Tokenizer) (hf : t.finished = false) :
    Tiling t.position t.rest t.tokens := by
  induction t using run_induction with
  | atEnd t h =>
    rw [tokens_of_rest_nil hf h, h]
    exact .eof _
  | before t h ih =>
    have htiling := ih (by rw [finished_next h, hf])
    rw [position_next h] at htiling
    rw [tokens_of_rest_ne_nil hf h, ← taken_append_rest_next t]
    refine .token (taken_ne_nil h) ?_ ?_ ?_ htiling
    · rw [next_of_rest_ne_nil h, String.toList_ofList]
    · rw [next_of_rest_ne_nil h]
    · rw [kind_next h]
      exact choose_kind_ne_eof _ _

/-! ## Asking for Tokens -/

/-- Asking a run for tokens until it has none left ends, and yields these. -/
inductive Drains : Tokenizer → List Token → Prop where
  | done {t : Tokenizer} : t.next?.1 = none → Drains t []
  | more {t : Tokenizer} {token : Token} {tokens : List Token} :
      t.next?.1 = some token → Drains t.next?.2 tokens → Drains t (token :: tokens)

theorem drains_tokens (t : Tokenizer) (hf : t.finished = false) : Drains t t.tokens := by
  induction t using run_induction with
  | atEnd t h =>
    rw [tokens_of_rest_nil hf h]
    refine .more ?_ (.done ?_)
    · rw [next?_of_unfinished hf, next_of_rest_nil h]
    · rw [next?_of_unfinished hf, next_of_rest_nil h, next?_of_finished rfl]
  | before t h ih =>
    rw [tokens_of_rest_ne_nil hf h]
    refine .more ?_ ?_
    · rw [next?_of_unfinished hf]
    · rw [next?_of_unfinished hf]
      exact ih (by rw [finished_next h, hf])

/-- A call that asks a run for a token. -/
inductive Call where
  /-- Answers a token always. -/
  | next
  /-- Answers nothing once the end of input has been produced. -/
  | next?
  deriving DecidableEq, Repr

/-- The answer to a call and the run after it. -/
def Call.answer : Call → Tokenizer → Option Token × Tokenizer
  | .next, t => (some t.next.1, t.next.2)
  | .next?, t => t.next?

/-- The answers to calls, one after another. -/
def answers : List Call → Tokenizer → List (Option Token)
  | [], _ => []
  | call :: calls, t => (call.answer t).1 :: answers calls (call.answer t).2

/-- What a call gets once the last token has been produced: the same token again,
or nothing. -/
def Call.afterLast (last : Option Token) : Call → Option Token
  | .next => last
  | .next? => none

/-- What the call after `i` others gets from a run with these tokens: the token
whose turn it is, as long as there is one. -/
def Call.expected (tokens : List Token) (i : Nat) (call : Call) : Option Token :=
  if i < tokens.length then tokens[i]? else call.afterLast tokens.getLast?

theorem Call.expected_cons {tokens : List Token} (h : tokens ≠ []) (token : Token) (i : Nat)
    (call : Call) : call.expected (token :: tokens) (i + 1) = call.expected tokens i := by
  simp [expected, List.getLast?_cons_of_ne_nil h]

theorem Call.answer_of_unfinished {t : Tokenizer} (hf : t.finished = false) (call : Call) :
    call.answer t = (some t.next.1, t.next.2) := by
  cases call with
  | next => rfl
  | next? => exact next?_of_unfinished hf

/-- After the end of input no call moves the run. -/
theorem answers_of_finished {t : Tokenizer} (hf : t.finished = true) (h : t.rest = [])
    (calls : List Call) : answers calls t = calls.map (Call.afterLast (some (.eof t.position))) := by
  induction calls with
  | nil => rfl
  | cons call calls ih =>
    have hsame : { t with finished := true } = t := by rw [← hf]
    have hanswer : call.answer t = (call.afterLast (some (.eof t.position)), t) := by
      cases call with
      | next => simp only [Call.answer, Call.afterLast, next_of_rest_nil h, hsame]
      | next? => exact next?_of_finished hf
    rw [answers, hanswer, ih, List.map_cons]

/-- However a run is asked for tokens, every call gets what its turn is. -/
theorem answers_eq (t : Tokenizer) (hf : t.finished = false) (calls : List Call) :
    answers calls t = calls.mapIdx (Call.expected t.tokens) := by
  induction calls generalizing t with
  | nil => rfl
  | cons call calls ih =>
    rw [answers, call.answer_of_unfinished hf, List.mapIdx_cons]
    by_cases h : t.rest = []
    · have hdone : t.next.2 = { t with finished := true } := by rw [next_of_rest_nil h]
      have hlater := answers_of_finished (t := { t with finished := true }) rfl h calls
      rw [tokens_of_rest_nil hf h, hdone, hlater, next_of_rest_nil h]
      refine congrArg _ (List.ext_getElem? fun i => ?_)
      rw [List.getElem?_map, List.getElem?_mapIdx]
      rfl
    · have hne := (tiling_tokens t.next.2 (by rw [finished_next h, hf])).ne_nil
      have hshift : (fun i => Call.expected (t.next.1 :: t.next.2.tokens) (i + 1)) =
          Call.expected t.next.2.tokens :=
        funext₂ (Call.expected_cons hne t.next.1)
      rw [ih _ (by rw [finished_next h, hf]), tokens_of_rest_ne_nil hf h, hshift]
      rfl

/-- Asked in any order of calls, the run over a text yields tokens that tile the
text, in a finite number of calls. Lines and columns of 32 bits do for it exactly
if the lines of the text are short enough and few enough. -/
theorem tokens_tile_text (maxDepth : Nat) (text : List Char) :
    let run := start maxDepth text
    Drains run run.tokens ∧ TilesText text run.tokens ∧
      (∀ calls, answers calls run = calls.mapIdx (Call.expected run.tokens)) ∧
      ((∀ t ∈ run.tokens, t.span.start.advanceOver32? t.text.toList = some t.span.stop) ↔
        Text.Narrow text) := by
  have htiling : Tiling .start text (start maxDepth text).tokens :=
    tiling_tokens (start maxDepth text) rfl
  exact ⟨drains_tokens _ rfl, htiling.tilesText, answers_eq _ rfl, htiling.advanceOver32?_iff⟩

end Tokenizer

end PipeQuery
