-- SUMMARY: The check of coverage accepts just the tokens that lie end to end over the text and close it; those of a run do.
import PipeQuery.Proofs.Tokenizer.Tiling
import PipeQuery.Stream.Coverage

/-! # What the Check of Coverage Accepts

The check passes over the tokens twice. First it compares neighbours, and then it walks
over the text and compares what stands there with each token. The walk alone decides: tokens
that it accepts lie end to end, and then their order needs no check of its own. -/

namespace PipeQuery

/-! ## Coverage -/

/-- Tokens that lie end to end over a text from an offset on, and have its text. -/
structure Follows (source : List Char) (offset : Nat) (tokens : List Token) : Prop where
  first : ∀ t ∈ tokens.head?, t.span.start.offset = offset
  adjacent : tokens.IsChain fun t u => u.span.start.offset = t.span.stop.offset
  texts : ∀ t ∈ tokens,
    Text.slice? t.span.start.offset t.span.stop.offset source = some t.text.toList

/-- Tokens that cover a text: they follow each other from its beginning, and the last one is
the end of input and stops with the text. -/
structure Covers (source : List Char) (tokens : List Token) : Prop
    extends Follows source 0 tokens where
  last : ∃ t, tokens.getLast? = some t ∧ t.kind = .eof ∧ t.span.stop.offset = Text.size source

namespace Follows

variable {source : List Char} {offset : Nat} {token : Token} {tokens : List Token}

theorem nil (source : List Char) (offset : Nat) : Follows source offset [] :=
  ⟨fun _ h => absurd h nofun, List.isChain_nil, List.forall_mem_nil _⟩

theorem cons_iff :
    Follows source offset (token :: tokens) ↔
      token.span.start.offset = offset ∧
      Text.slice? offset token.span.stop.offset source = some token.text.toList ∧
      Follows source token.span.stop.offset tokens := by
  constructor
  · rintro ⟨hfirst, hadjacent, htexts⟩
    obtain rfl := hfirst token rfl
    obtain ⟨hnext, hrest⟩ := List.isChain_cons.1 hadjacent
    obtain ⟨htext, hrest'⟩ := List.forall_mem_cons.1 htexts
    exact ⟨rfl, htext, hnext, hrest, hrest'⟩
  · rintro ⟨rfl, htext, hnext, hrest, hrest'⟩
    refine ⟨?_, List.isChain_cons.2 ⟨hnext, hrest⟩, List.forall_mem_cons.2 ⟨htext, hrest'⟩⟩
    intro t ht
    rw [Option.some.inj ht]

end Follows

namespace Coverage

/-! ## Passes -/

/-- Where tokens stop, or an offset if there are none. -/
def stopOf (offset : Nat) (tokens : List Token) : Nat :=
  tokens.getLast?.elim offset (·.span.stop.offset)

theorem stopOf_cons (offset : Nat) (t : Token) (tokens : List Token) :
    stopOf offset (t :: tokens) = stopOf t.span.stop.offset tokens := by
  rw [stopOf, stopOf, List.getLast?_cons]
  cases tokens.getLast? <;> rfl

/-- Tokens that lie end to end are in order. -/
theorem checkOrder_of_isChain {tokens : List Token}
    (h : tokens.IsChain fun t u => u.span.start.offset = t.span.stop.offset) :
    checkOrder tokens = .ok () := by
  fun_induction checkOrder tokens with
  | case1 t u tokens hoverlap =>
    have hstart := (List.isChain_cons_cons.1 h).1
    exact absurd hoverlap (Nat.not_lt_of_ge (Nat.le_of_eq hstart.symm))
  | case2 t u tokens hordered ih => exact ih (List.isChain_cons_cons.1 h).2
  | case3 => rfl

/-- The walk accepts tokens exactly if they follow each other from where it begins. -/
theorem walk_eq_ok_iff {before rest : List Char} {tokens : List Token} {stop : Nat} :
    walk (Text.size before) rest tokens = .ok stop ↔
      Follows (before ++ rest) (Text.size before) tokens ∧
        stopOf (Text.size before) tokens = stop := by
  induction tokens generalizing before rest with
  | nil =>
    rw [walk]
    exact ⟨fun h => ⟨.nil _ _, Except.ok.inj h⟩, fun h => congrArg Except.ok h.2⟩
  | cons t tokens ih =>
    rw [Follows.cons_iff, Text.slice?_size_iff, stopOf_cons, walk]
    split
    case isTrue hgap => exact iff_of_false nofun fun h => hgap h.1.1
    case isFalse hstart =>
      -- The text of the token stands at this place, or the walk ends.
      rw [← List.isPrefixOf_iff_prefix]
      split
      case isTrue hfits =>
        obtain ⟨hstands, hstop⟩ := hfits
        obtain ⟨behind, rfl⟩ := List.isPrefixOf_iff_prefix.1 hstands
        have hrest : walk (Text.size (before ++ t.text.toList)) behind tokens = .ok stop ↔ _ := ih
        rw [Text.size_append, List.append_assoc, hstop] at hrest
        rw [List.drop_left, hrest]
        exact and_congr_left fun _ =>
          ⟨fun h => ⟨not_not.1 hstart, ⟨hstands, hstop⟩, h⟩, fun h => h.2.2⟩
      case isFalse hmismatch => exact iff_of_false nofun fun h => hmismatch h.1.2.1

/-- The check passes exactly if both passes do and the end is the end of input. -/
theorem check_eq_ok_iff {tokens : List Token} {source : List Char} :
    check tokens source = .ok () ↔
      checkOrder tokens = .ok () ∧ walk 0 source tokens = .ok (Text.size source) ∧
        ∃ t, tokens.getLast? = some t ∧ t.kind = .eof := by
  unfold check
  cases checkOrder tokens with
  | error e => simp [bind, Except.bind]
  | ok =>
    cases walk 0 source tokens with
    | error e => simp [bind, Except.bind]
    | ok stop =>
      by_cases hstop : stop = Text.size source
      · cases tokens.getLast? with
        | none => simp [bind, Except.bind, hstop, throw, throwThe, MonadExceptOf.throw]
        | some t =>
          by_cases heof : t.kind = .eof <;>
            simp [bind, Except.bind, pure, Except.pure, hstop, heof, Token.isEof, throw, throwThe,
              MonadExceptOf.throw]
      · simp [bind, Except.bind, hstop, throw, throwThe, MonadExceptOf.throw]

/-- The check of coverage passes exactly for the tokens that cover the text. -/
theorem check_eq_ok_iff_covers {tokens : List Token} {source : List Char} :
    check tokens source = .ok () ↔ Covers source tokens := by
  have hwalk : walk (Text.size []) source tokens = .ok (Text.size source) ↔
      Follows ([] ++ source) (Text.size []) tokens ∧
        stopOf (Text.size []) tokens = Text.size source :=
    walk_eq_ok_iff
  rw [Text.size_nil, List.nil_append] at hwalk
  rw [check_eq_ok_iff, hwalk]
  constructor
  · rintro ⟨-, ⟨hfollows, hstop⟩, t, hlast, hkind⟩
    rw [stopOf, hlast] at hstop
    exact ⟨hfollows, t, hlast, hkind, hstop⟩
  · rintro ⟨hfollows, t, hlast, hkind, hstop⟩
    refine ⟨checkOrder_of_isChain hfollows.adjacent, ⟨hfollows, ?_⟩, t, hlast, hkind⟩
    rw [stopOf, hlast]
    exact hstop

/-! ## Texts of Covering Tokens -/

/-- The texts of tokens that follow each other stand there one after the other. -/
theorem flatMap_text_of_follows {before rest : List Char} {tokens : List Token}
    (h : Follows (before ++ rest) (Text.size before) tokens) :
    ∃ behind, rest = tokens.flatMap (·.text.toList) ++ behind ∧
      stopOf (Text.size before) tokens =
        Text.size before + Text.size (tokens.flatMap (·.text.toList)) := by
  induction tokens generalizing before rest with
  | nil => exact ⟨rest, rfl, rfl⟩
  | cons t tokens ih =>
    obtain ⟨-, htext, hrest⟩ := Follows.cons_iff.1 h
    obtain ⟨⟨behind, rfl⟩, hstop⟩ := Text.slice?_size_iff.1 htext
    rw [← Text.size_append] at hstop
    rw [← hstop, ← List.append_assoc] at hrest
    obtain ⟨last, rfl, hlast⟩ := ih hrest
    refine ⟨last, by rw [List.flatMap_cons, List.append_assoc], ?_⟩
    rw [stopOf_cons, ← hstop, hlast, List.flatMap_cons, Text.size_append, Text.size_append,
      Nat.add_assoc]

theorem flatMap_text_of_covers {source : List Char} {tokens : List Token}
    (h : Covers source tokens) : tokens.flatMap (·.text.toList) = source := by
  have hfollows : Follows ([] ++ source) (Text.size []) tokens := h.toFollows
  obtain ⟨behind, hsource, hstop⟩ := flatMap_text_of_follows hfollows
  obtain ⟨t, hlast, -, hsize⟩ := h.last
  have hnone : Text.size behind = 0 := by
    have hwhole := congrArg Text.size hsource
    rw [Text.size_append] at hwhole
    rw [stopOf, hlast, Option.elim_some, Text.size_nil] at hstop
    omega
  rw [hsource, Text.size_eq_zero_iff.1 hnone, List.append_nil]

/-! ## Tilings -/

theorem covers_of_tiling {source : List Char} {tokens : List Token}
    (h : Tiling .start source tokens) : Covers source tokens where
  first t ht := by
    have hstart := h.head?_start
    rw [Option.mem_def.1 ht, Option.map_some] at hstart
    exact congrArg Position.offset (Option.some.inj hstart)
  adjacent := h.isChain.imp fun _ _ hstart => congrArg Position.offset hstart
  texts := h.slice?_of_mem
  last := ⟨_, h.getLast?, rfl, by simp [Token.eof, Span.empty, Position.start]⟩

/-- Tokens that tile a text from its beginning pass the check. -/
theorem check_of_tiling {source : List Char} {tokens : List Token}
    (h : Tiling .start source tokens) : check tokens source = .ok () :=
  check_eq_ok_iff_covers.2 (covers_of_tiling h)

/-! ## Streams -/

theorem exists_error_of_not_covers {source : List Char} {tokens : List Token}
    (h : ¬Covers source tokens) : ∃ e, check tokens source = .error e := by
  cases hcheck : check tokens source with
  | error e => exact ⟨e, rfl⟩
  | ok => exact absurd (check_eq_ok_iff_covers.1 hcheck) h

/-- The check accepts a stream exactly if its tokens cover the text. So a text is rebuilt from
an accepted stream, a gap, an overlap or another text is refused, and the stream of a run is
accepted at any depth limit. -/
theorem check_spec (stream : TokenStream) (source : List Char) :
    (check stream.tokens source = .ok () ↔ Covers source stream.tokens) ∧
    (check stream.tokens source = .ok () → stream.reconstruct = String.ofList source) ∧
    (∀ before t u behind, stream.tokens = before ++ t :: u :: behind →
      t.span.stop.offset ≠ u.span.start.offset → ∃ e, check stream.tokens source = .error e) ∧
    (∀ t ∈ stream.tokens,
      Text.slice? t.span.start.offset t.span.stop.offset source ≠ some t.text.toList →
        ∃ e, check stream.tokens source = .error e) ∧
    (∀ maxDepth source?,
      check (TokenStream.ofTokens (Tokenizer.start maxDepth source).tokens source?).tokens source =
        .ok ()) := by
  refine ⟨check_eq_ok_iff_covers, ?_, ?_, ?_, ?_⟩
  · intro hcheck
    apply String.toList_injective
    rw [TokenStream.reconstruct, String.toList_join, List.flatMap_map, String.toList_ofList]
    exact flatMap_text_of_covers (check_eq_ok_iff_covers.1 hcheck)
  · intro before t u behind htokens hapart
    refine exists_error_of_not_covers fun hcovers => ?_
    have hadjacent := hcovers.adjacent
    rw [htokens, List.isChain_append_cons_cons] at hadjacent
    exact hapart hadjacent.2.1.symm
  · intro t ht hother
    exact exists_error_of_not_covers fun hcovers => hother (hcovers.texts t ht)
  · intro maxDepth source?
    exact check_of_tiling (Tokenizer.tiling_tokens (.start maxDepth source) rfl)

end Coverage

end PipeQuery
