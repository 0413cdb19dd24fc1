-- SUMMARY: A scanner that is given the bytes of a text takes exactly the bytes of the characters that it takes of the text.
import PipeQuery.Proofs.Bytes.Run
import PipeQuery.Proofs.Recognizer.Comment
import PipeQuery.Proofs.Recognizer.CutLiteral
import PipeQuery.Proofs.Recognizer.Length
import PipeQuery.Proofs.Text.LetterCase

/-! # Matches of Encoded Texts

A scanner looks for ASCII marks, which are never found inside a character, and goes on by runs or
by pieces. A piece of two bytes is two ASCII characters; only the byte behind a slash in an index
pattern may be the first of a longer character, and the bytes after it are then taken one by one. -/

namespace PipeQuery

namespace Scan

open CharClass Text

/-! ## Comments -/

theorem countsBytes_lineComment : CountsBytes lineComment := by
  refine countsBytes_of_prefix ['/', '/'] (by decide) (fun ds => ?_) lineComment.eq_2
  have hrun := countsBytes_leading narrow_isLineEnd.uniform.not ds
  have htake := size_take_append_of_ascii ['/', '/'] (by decide) ds
    (leading (fun c => !isLineEnd c) ds)
  rw [← hrun] at htake
  exact htake.symm

theorem remains?_append_of_wide {ws : List Char} (h : ∀ b ∈ ws, Wide b) (cs : List Char) :
    Comment.remains? (ws ++ cs) = Comment.remains? cs := by
  induction ws with
  | nil => rfl
  | cons b ws ih =>
    rw [List.forall_mem_cons] at h
    have hclose : ¬(b = '*' ∧ (ws ++ cs).head? = some '/') := fun hb =>
      ne_of_wide h.1 (by decide) hb.1
    have hopen : ¬(b = '/' ∧ (ws ++ cs).head? = some '*') := fun hb =>
      ne_of_wide h.1 (by decide) hb.1
    rw [List.cons_append, Comment.remains?_plain hclose hopen, ih h.2]

/-- How many bytes the last characters of a text take. -/
def lastSize (cs : List Char) (k : Nat) : Nat :=
  size (cs.drop (cs.length - k))

theorem lastSize_append {ds : List Char} {k : Nat} (h : k ≤ ds.length) (front : List Char) :
    lastSize (front ++ ds) k = lastSize ds k := by
  have hindex : (front ++ ds).length - k = front.length + (ds.length - k) := by
    rw [List.length_append]
    omega
  rw [lastSize, lastSize, hindex, List.drop_append, List.drop_of_length_le (Nat.le_add_right _ _),
    Nat.add_sub_cancel_left, List.nil_append]

theorem size_sub_lastSize (cs : List Char) (k : Nat) :
    size cs - lastSize cs k = size (cs.take (cs.length - k)) := by
  have hsplit : size cs = size (cs.take (cs.length - k)) + lastSize cs k := by
    rw [lastSize, ← size_append, List.take_append_drop]
  omega

/-- The answer for an ending of a text is the answer for the text. -/
theorem map_lastSize_append (front ds : List Char) :
    (Comment.remains? ds).map (lastSize (front ++ ds)) =
      (Comment.remains? ds).map (lastSize ds) := by
  refine Option.map_congr fun k hk => lastSize_append ?_ front
  have := Comment.remains?_lt hk
  omega

/-- What remains behind a comment body in the bytes are the bytes of what remains in the text. -/
theorem remains?_spread (cs : List Char) :
    Comment.remains? (spread cs) = (Comment.remains? cs).map (lastSize cs) := by
  induction hn : cs.length using Nat.strongRecOn generalizing cs with
  | ind n ih =>
    subst hn
    rcases Comment.cases_of_text cs with rfl | ⟨ds, rfl⟩ | ⟨ds, rfl⟩ | ⟨c, ds, rfl, hclose, hopen⟩
    · rfl
    · have hlast : lastSize (['*', '/'] ++ ds) ds.length = size ds := by
        rw [lastSize_append (Nat.le_refl _), lastSize, Nat.sub_self, List.drop_zero]
      rw [spread_cons_of_not_wide (by decide), spread_cons_of_not_wide (by decide),
        Comment.remains?_close, Comment.remains?_close, length_spread, ← hlast]
      rfl
    -- What remains is measured in the whole text, of which the body inside is only an ending.
    · have hplain : Comment.remains? ('*' :: spread ds) =
          (Comment.remains? ('*' :: ds)).map (lastSize ('/' :: '*' :: ds)) := by
        have hrest := ih _ (Nat.lt_succ_self _) ('*' :: ds) rfl
        rw [spread_cons_of_not_wide (by decide)] at hrest
        rw [hrest]
        exact (map_lastSize_append ['/'] ('*' :: ds)).symm
      have hnested : ((Comment.remains? (spread ds)).bind fun k =>
            Comment.remains? ((spread ds).drop ((spread ds).length - k))) =
          ((Comment.remains? ds).bind fun k => Comment.remains? (ds.drop (ds.length - k))).map
            (lastSize ('/' :: '*' :: ds)) := by
        rw [ih ds.length (by simp only [List.length_cons]; omega) ds rfl]
        cases Comment.remains? ds with
        | none => rfl
        | some k =>
          have hshorter : (ds.drop (ds.length - k)).length < ('/' :: '*' :: ds).length := by
            simp only [List.length_drop, List.length_cons]
            omega
          have hwhole := map_lastSize_append ('/' :: '*' :: ds.take (ds.length - k))
            (ds.drop (ds.length - k))
          rw [List.cons_append, List.cons_append, List.take_append_drop] at hwhole
          rw [Option.map_some, Option.bind_some, Option.bind_some, length_spread, size_sub_lastSize,
            drop_spread, ih _ hshorter _ rfl, hwhole]
      rw [spread_cons_of_not_wide (by decide), spread_cons_of_not_wide (by decide),
        Comment.remains?_open, Comment.remains?_open, hplain, hnested, Option.map_or]
    · have hrest := ih _ (Nat.lt_succ_self _) ds rfl
      have hwhole := map_lastSize_append [c] ds
      rw [Comment.remains?_plain hclose hopen, ← List.singleton_append, hwhole, ← hrest,
        List.singleton_append]
      -- No byte of a wide character marks a comment, so all of them are passed.
      by_cases hc : Wide c
      · rw [spread_cons, remains?_append_of_wide fun b hb => wide_of_mem_encoded hc hb]
      · rw [spread_cons_of_not_wide hc]
        refine Comment.remains?_plain ?_ ?_
        · rwa [head?_spread_eq_iff (by decide)]
        · rwa [head?_spread_eq_iff (by decide)]

theorem countsBytes_blockComment : CountsBytes blockComment := by
  refine countsBytes_of_prefix ['/', '*'] (by decide) (fun ds => ?_) blockComment.eq_2
  have hbytes : Comment.bodyLength? (spread ds) =
      (Comment.bodyLength? ds).map fun body => size (ds.take body) := by
    rw [Comment.bodyLength?_eq, Comment.bodyLength?_eq, remains?_spread, length_spread,
      Option.map_map, Option.map_map]
    refine Option.map_congr fun k _ => ?_
    exact size_sub_lastSize ds k
  rw [List.cons_append, List.cons_append, List.nil_append, List.cons_append, List.cons_append,
    List.nil_append, blockComment, blockComment, hbytes]
  cases Comment.bodyLength? ds with
  | none => rfl
  | some body =>
    have htake : size (('/' :: '*' :: ds).take (2 + body)) = 2 + size (ds.take body) :=
      size_take_append_of_ascii ['/', '*'] (by decide) ds body
    show size (ds.take body) + 2 = size (('/' :: '*' :: ds).take (body + 2))
    rw [Nat.add_comm, Nat.add_comm body, htake]

/-! ## Pieces -/

section Pieces

variable {piece : List Char → Nat}

theorem pieces_append_of_ones {ws : List Char} (h : ∀ b ∈ ws, ∀ ds, piece (b :: ds) = 1)
    (ds : List Char) : pieces piece (ws ++ ds) = ws.length + pieces piece ds := by
  induction ws with
  | nil => rw [List.nil_append, List.length_nil, Nat.zero_add]
  | cons b ws ih =>
    rw [List.forall_mem_cons] at h
    have hone : piece ([b] ++ (ws ++ ds)) = [b].length := h.1 _
    have hbytes := pieces_append (List.cons_ne_nil b []) hone
    rw [List.singleton_append, List.length_singleton, ih h.2] at hbytes
    rw [List.cons_append, hbytes, List.length_cons]
    omega

/-- A character that is a piece of its own, as is every byte above ASCII, is taken byte by byte. -/
theorem pieces_spread_cons (hwide : ∀ {b}, Wide b → ∀ ds, piece (b :: ds) = 1) {c : Char}
    (hone : ∀ ds, piece (c :: ds) = 1) (ds : List Char) :
    pieces piece (spread (c :: ds)) =
      size ((c :: ds).take (piece (c :: ds))) +
        pieces piece (spread ((c :: ds).drop (piece (c :: ds)))) := by
  have hbytes : ∀ b ∈ encoded c, ∀ ds, piece (b :: ds) = 1 := by
    intro b hb
    rcases alike_of_mem_encoded hb with rfl | ⟨hb, -⟩
    · exact hone
    · exact hwide hb
  have hsize : size ((c :: ds).take 1) = c.utf8Size := size_cons c []
  rw [spread_cons, pieces_append_of_ones hbytes, length_encoded, hone, hsize, List.drop_one,
    List.tail_cons]

/-- Pieces of the text may fall into several pieces of its bytes. -/
theorem countsBytes_pieces (stop : ∀ cs, piece cs = 0 → piece (spread cs) = 0)
    (step : ∀ cs, cs ≠ [] → 0 < piece cs →
      pieces piece (spread cs) =
        size (cs.take (piece cs)) + pieces piece (spread (cs.drop (piece cs)))) :
    CountsBytes (pieces piece) := by
  intro cs
  induction cs using pieces_induction piece with
  | stop cs hstop =>
    rw [pieces_of_stop hstop, List.take_zero, size_nil]
    rcases hstop with rfl | hzero
    · rfl
    · exact pieces_of_zero (stop cs hzero)
  | step cs hne hpos ih => rw [step cs hne hpos, ih, pieces_of_pos hne hpos, size_take_add]

theorem CountsBytes.pieces (h : CountsBytes piece) : CountsBytes (pieces piece) := by
  refine countsBytes_pieces (fun cs hzero => ?_) fun cs hne hpos => ?_
  · rw [h cs, hzero]
    rfl
  · have hsize : 0 < piece (spread cs) := by
      rw [h cs, Nat.pos_iff_ne_zero, ne_eq, size_eq_zero_iff, List.take_eq_nil_iff, not_or]
      exact ⟨hpos.ne', hne⟩
    rw [pieces_of_pos (mt spread_eq_nil_iff.1 hne) hsize, h.drop, h cs]

end Pieces

/-- Pieces of two characters, a mark and one of a class behind it, and pieces of one character of
another class. -/
structure Paired (mark : Char) (pair plain : Char → Bool) (piece : List Char → Nat) : Prop where
  nil : piece [] = 0
  lone : piece [mark] = 0
  behind : ∀ d ds, piece (mark :: d :: ds) = if pair d then 2 else 0
  other : ∀ {c}, c ≠ mark → ∀ ds, piece (c :: ds) = if plain c then 1 else 0

section Paired

variable {mark : Char} {pair plain : Char → Bool} {piece : List Char → Nat}

theorem Paired.of_wide (h : Paired mark pair plain piece) (hmark : ¬Wide mark)
    (hplain : ∀ {c}, Wide c → plain c = true) {c : Char} (hc : Wide c) (ds : List Char) :
    piece (c :: ds) = 1 := by
  rw [h.other (ne_of_wide hc hmark), hplain hc, if_pos rfl]

/-- A mark may take the first byte of a longer character with it; the other bytes of that
character follow one by one. -/
theorem Paired.pieces_spread_pair (h : Paired mark pair plain piece) (hmark : ¬Wide mark)
    (hpair : Uniform pair) (hplain : ∀ {c}, Wide c → plain c = true) {d : Char}
    (hd : pair d = true) (ds : List Char) :
    pieces piece (spread (mark :: d :: ds)) = 1 + d.utf8Size + pieces piece (spread ds) := by
  obtain ⟨b, ws, hspread, hb, hws, hlen⟩ := exists_spread_cons d ds
  have htwo : piece ([mark, b] ++ (ws ++ spread ds)) = [mark, b].length :=
    (h.behind b _).trans (if_pos ((hpair b d hb).trans hd))
  have hfirst := pieces_append (List.cons_ne_nil mark [b]) htwo
  have hothers := pieces_append_of_ones (fun w hw ds => h.of_wide hmark hplain (hws w hw) ds)
    (spread ds)
  rw [hothers] at hfirst
  rw [spread_cons_of_not_wide hmark, hspread, ← hlen]
  refine hfirst.trans ?_
  rw [List.length_cons, List.length_singleton]
  omega

theorem Paired.countsBytes (h : Paired mark pair plain piece) (hmark : ¬Wide mark)
    (hpair : Uniform pair) (hplain : ∀ {c}, Wide c → plain c = true) :
    CountsBytes (pieces piece) := by
  refine countsBytes_pieces (fun cs hzero => ?_) fun cs hne hpos => ?_
  · cases cs with
    | nil => exact hzero
    | cons c ds =>
      by_cases hc : c = mark
      · rw [hc] at hzero ⊢
        rw [spread_cons_of_not_wide hmark]
        cases ds with
        | nil => exact hzero
        | cons d ds =>
          obtain ⟨b, ws, hspread, hb, -⟩ := exists_spread_cons d ds
          rwa [hspread, h.behind, hpair b d hb, ← h.behind d ds]
      · have hnarrow : ¬Wide c := fun hlong => by
          rw [h.of_wide hmark hplain hlong] at hzero
          exact absurd hzero Nat.one_ne_zero
        rw [spread_cons_of_not_wide hnarrow]
        rwa [h.other hc] at hzero ⊢
  · obtain ⟨c, ds, rfl⟩ := List.exists_cons_of_ne_nil hne
    by_cases hc : c = mark
    · rw [hc] at hpos ⊢
      cases ds with
      | nil => exact absurd h.lone hpos.ne'
      | cons d ds =>
        have hd : pair d = true := by
          by_contra hd
          rw [h.behind, if_neg hd] at hpos
          exact Nat.lt_irrefl _ hpos
        have htaken : size [mark, d] = 1 + d.utf8Size := by
          rw [size_cons, utf8Size_of_not_wide hmark, size_cons, size_nil, Nat.add_zero]
        rw [h.pieces_spread_pair hmark hpair hplain hd, h.behind, if_pos hd, ← htaken]
        rfl
    · have hclass : plain c = true := by
        by_contra hclass
        rw [h.other hc, if_neg hclass] at hpos
        exact Nat.lt_irrefl _ hpos
      refine pieces_spread_cons (h.of_wide hmark hplain) (fun ds => ?_) ds
      rw [h.other hc, if_pos hclass]

end Paired

/-! ## Sources and Policies -/

theorem paired_sourcePiece :
    Paired '/' (fun d => !(d == '*' || d == '/')) isSource sourcePiece where
  nil := rfl
  lone := rfl
  behind d ds := by by_cases hstar : d = '*' <;> by_cases hslash : d = '/' <;> simp [hstar, hslash]
  other := sourcePiece_of_ne

theorem countsBytes_unquotedSource : CountsBytes unquotedSource := by
  have hends : Narrow fun d => d == '*' || d == '/' := narrow_beq_or (by decide) (by decide)
  exact paired_sourcePiece.countsBytes (by decide) hends.uniform.not isSource_of_wide

theorem countsBytes_policyRun : CountsBytes (leading isPolicy) :=
  countsBytes_leading (uniform_of_wide isPolicy_of_wide)

theorem countsBytes_policyName : CountsBytes policyName := by
  have hrun := countsBytes_policyRun
  intro cs
  have hle := leading_le_length isPolicy cs
  rw [policyName, policyName, hrun.drop, hrun cs]
  generalize leading isPolicy cs = head at hle ⊢
  cases hrest : cs.drop head with
  | nil => rfl
  | cons c rest =>
    by_cases hc : c = ':'
    · subst hc
      have htail := hrun.eq_zero_iff (leading_le_length isPolicy rest)
      rw [spread_cons_of_not_wide (by decide)]
      simp only [size_take_eq_zero_iff hle, htail]
      by_cases hnone : head = 0 ∨ leading isPolicy rest = 0
      · rw [if_pos hnone, if_pos hnone]
      · rw [if_neg hnone, if_neg hnone, size_take_mark (by decide) hrest, hrun rest]
    · obtain ⟨b, bs, hspread, hne⟩ := exists_spread_cons_of_ne (by decide) hc rest
      rw [hspread]
      simp [hc, hne]

/-! ## Strings -/

theorem paired_stringPiece :
    Paired '\\' isEscaped (fun c => !(c == '"' || isLineEnd c)) stringPiece where
  nil := rfl
  lone := rfl
  behind _ _ := rfl
  other {c} hc ds := by
    rw [stringPiece_of_ne hc]
    by_cases hmark : c = '"' <;> by_cases hline : isLineEnd c = true <;> simp [hmark, hline]

theorem countsBytes_stringPieces : CountsBytes (pieces stringPiece) := by
  refine paired_stringPiece.countsBytes (by decide) narrow_isEscaped.uniform fun {c} hc => ?_
  simp (disch := decide) [beq_of_wide hc, narrow_isLineEnd c hc]

theorem countsBytes_simpleString : CountsBytes simpleString := by
  refine countsBytes_of_prefix ['"'] (by decide) (fun ds => ?_) simpleString.eq_2
  rw [List.singleton_append, List.singleton_append, simpleString_quote, simpleString_quote,
    countsBytes_stringPieces.drop, countsBytes_stringPieces ds]
  simp only [head?_spread_eq_iff (k := '"') (by decide)]
  split
  case isTrue hclosed =>
    obtain ⟨rest, hrest⟩ := List.head?_eq_some_iff.1 hclosed
    rw [size_take_cons_succ (by decide), size_take_mark (m := 0) (by decide) hrest]
    rfl
  case isFalse => rfl

theorem beforeTriple_append_of_wide {ws : List Char} (h : ∀ b ∈ ws, Wide b) (count : Nat)
    (cs : List Char) : beforeTriple count (ws ++ cs) = beforeTriple (count + ws.length) cs := by
  induction ws generalizing count with
  | nil => rfl
  | cons b ws ih =>
    rw [List.forall_mem_cons] at h
    have hne : '"' ≠ b := (ne_of_wide h.1 (by decide)).symm
    rw [List.cons_append, beforeTriple, if_neg (by simp [List.isPrefixOf, hne]), ih h.2,
      List.length_cons, Nat.add_assoc, Nat.add_comm 1]

/-- Where the marks stand that close a tripled string, in bytes. -/
theorem beforeTriple_spread (cs : List Char) :
    beforeTriple 0 (spread cs) = (beforeTriple 0 cs).map fun n => size (cs.take n) := by
  induction cs with
  | nil => rfl
  | cons c cs ih =>
    have hmarks := isPrefixOf_spread ['"', '"', '"'] (by decide) (c :: cs)
    rw [beforeTriple]
    split
    case isTrue hfirst =>
      obtain ⟨ds, hds⟩ := List.isPrefixOf_iff_prefix.1 hfirst
      rw [← hds, spread_append_of_ascii _ (by decide)]
      rfl
    case isFalse hfirst =>
      have hbytes : beforeTriple 0 (spread (c :: cs)) = beforeTriple c.utf8Size (spread cs) := by
        by_cases hc : Wide c
        · rw [spread_cons, beforeTriple_append_of_wide fun b hb => wide_of_mem_encoded hc hb,
            length_encoded, Nat.zero_add]
        · rw [spread_cons_of_not_wide hc] at hmarks ⊢
          rw [beforeTriple, hmarks, if_neg hfirst, utf8Size_of_not_wide hc]
      rw [hbytes, beforeTriple_add, ih, beforeTriple_add (0 + 1), Option.map_map, Option.map_map]
      congr 1
      funext n
      rw [Function.comp_apply, Function.comp_apply, Nat.add_comm (0 + 1), List.take_succ_cons,
        size_cons]

theorem countsBytes_tripleString : CountsBytes tripleString := by
  refine countsBytes_of_prefix marks (by decide) (fun ds => ?_) tripleString.eq_2
  have hopen : ∀ cs, tripleString (marks ++ cs) =
      (beforeTriple 0 (cs.takeWhile fun c => !isLineEnd c)).elim 0 fun body =>
        body + 6 + min 2 (leading (· == '"') (cs.drop (body + 3))) := tripleString_marks
  rw [hopen, hopen, takeWhile_spread narrow_isLineEnd.uniform.not, beforeTriple_spread]
  cases hbody : beforeTriple 0 (ds.takeWhile fun c => !isLineEnd c) with
  | none => rfl
  | some n =>
    obtain ⟨body, behind, hline, hn, -⟩ := beforeTriple_eq_some_iff.1 hbody
    obtain ⟨rest, hrest⟩ := List.takeWhile_prefix (l := ds) fun c => !isLineEnd c
    rw [Nat.zero_add] at hn
    have hbefore : size ((ds.takeWhile fun c => !isLineEnd c).take n) = size body := by
      rw [hline, hn, List.take_left]
    have hfront : size (ds.take (n + 3)) = size body + 3 := by
      rw [← hrest, hline, List.append_assoc, hn, List.take_length_add_append, size_append]
      rfl
    have hclosing : (spread ds).drop (size body + 3) = spread (ds.drop (n + 3)) := by
      rw [← hfront, drop_spread]
    -- Up to two more marks are taken, each one byte.
    have hmore := size_take_of_le_leading (narrow_beq (k := '"') (by decide))
      (Nat.min_le_right 2 (leading (· == '"') (ds.drop (n + 3))))
    have hlen : n + 6 + min 2 (leading (· == '"') (ds.drop (n + 3))) =
        marks.length + (n + 3 + min 2 (leading (· == '"') (ds.drop (n + 3)))) := by
      simp only [marks, List.length_cons, List.length_nil]
      omega
    rw [Option.map_some, Option.elim_some, Option.elim_some, hbefore, hclosing,
      (asciiOnly_leading (narrow_beq (by decide))).spread, hlen,
      size_take_append_of_ascii marks (by decide), size_take_add, hfront, hmore]
    simp only [marks, List.length_cons, List.length_nil]
    omega

theorem countsBytes_quotedString : CountsBytes quotedString :=
  countsBytes_simpleString.max countsBytes_tripleString

/-! ## Numbers -/

theorem asciiOnly_digits : AsciiOnly digits :=
  asciiOnly_leading narrow_isDigit

/-- A character above ASCII is none of two marks. -/
theorem not_mark_of_wide {c k l : Char} (hc : Wide c) (hk : ¬Wide k) (hl : ¬Wide l) :
    ¬(c = k ∨ c = l) :=
  not_or.2 ⟨ne_of_wide hc hk, ne_of_wide hc hl⟩

theorem asciiOnly_sign : AsciiOnly sign := by
  refine asciiOnly_of_cons rfl (fun hc => ?_) (fun _ => rfl) fun {c cs} hc => ?_
  · exact if_neg (not_mark_of_wide hc (by decide) (by decide))
  · rw [sign]
    split
    case isTrue => exact size_take_cons_succ hc cs 0
    case isFalse => rfl

/-- A mark of an exponent, its sign and its digits. -/
theorem size_take_exponent {c : Char} (hc : ¬Wide c) (cs : List Char) :
    size ((c :: cs).take (1 + sign cs + digits (cs.drop (sign cs)))) =
      1 + sign cs + digits (cs.drop (sign cs)) := by
  rw [Nat.add_assoc, Nat.add_comm 1, size_take_cons_succ hc, size_take_add, asciiOnly_sign.size,
    asciiOnly_digits.size]

theorem asciiOnly_exponent : AsciiOnly exponent := by
  refine asciiOnly_of_cons rfl (fun hc => ?_) (fun hc => ?_) fun {c cs} hc => ?_
  · exact if_neg (not_mark_of_wide hc (by decide) (by decide))
  · rw [exponent, exponent, asciiOnly_sign.spread, asciiOnly_sign.drop, asciiOnly_digits.spread]
  · rw [exponent]
    split
    case isTrue => exact size_take_ite (size_take_exponent hc cs)
    case isFalse => rfl

theorem asciiOnly_decimal : AsciiOnly decimal := by
  refine ⟨fun cs => ?_, fun cs => ?_⟩
  · rw [decimal, decimal, asciiOnly_digits.spread, asciiOnly_digits.drop]
    cases cs.drop (digits cs) with
    | nil => rfl
    | cons c rest =>
      by_cases hc : c = '.'
      · subst hc
        rw [spread_cons_of_not_wide (by decide)]
        simp only [asciiOnly_digits.spread, asciiOnly_digits.drop, asciiOnly_exponent.spread]
      · obtain ⟨b, bs, hspread, hne⟩ := exists_spread_cons_of_ne (by decide) hc rest
        have hexp := asciiOnly_exponent.spread (c :: rest)
        rw [hspread] at hexp ⊢
        simp [hc, hne, hexp]
  · have hwhole := asciiOnly_digits.size cs
    unfold decimal
    dsimp only
    split
    case h_1 rest hrest =>
      refine size_take_ite ?_
      rw [Nat.add_assoc, size_take_mark (by decide) hrest, size_take_add, hwhole,
        asciiOnly_digits.size, asciiOnly_exponent.size]
    case h_2 =>
      refine size_take_ite ?_
      rw [size_take_add, hwhole, asciiOnly_exponent.size]

/-! ## Names -/

theorem parameter_of_wide {d : Char} (hd : Wide d) (cs : List Char) :
    parameter ('?' :: d :: cs) = 0 := by
  rw [parameter, narrow_isAlpha d hd, narrow_isDigit d hd]
  rfl

theorem asciiOnly_parameter : AsciiOnly parameter := by
  have hword := asciiOnly_leading narrow_isWord
  have hother : ∀ {c cs}, c ≠ '?' → parameter (c :: cs) = 0 := fun hc =>
    parameter.eq_2 _ fun _ _ hcs => hc (List.cons.inj hcs).1
  refine asciiOnly_of_cons rfl (fun hc => ?_) (fun {c cs} hc => ?_) fun {c cs} hc => ?_
  · exact hother (ne_of_wide hc (by decide))
  · by_cases hopen : c = '?'
    · subst hopen
      cases cs with
      | nil => rfl
      | cons d ds =>
        by_cases hd : Wide d
        · obtain ⟨b, ws, hspread, hb, -⟩ := exists_spread_cons d ds
          rw [hspread, parameter_of_wide (hb.wide hd), parameter_of_wide hd]
        · rw [spread_cons_of_not_wide hd, parameter, parameter, hword.spread,
            asciiOnly_digits.spread]
    · rw [hother hopen, hother hopen]
  · by_cases hopen : c = '?'
    · subst hopen
      cases cs with
      | nil => rfl
      | cons d ds =>
        by_cases hd : Wide d
        · rw [parameter_of_wide hd]
          rfl
        · have htake : ∀ n, size (('?' :: d :: ds).take (2 + n)) = 2 + size (ds.take n) := by
            refine size_take_append_of_ascii ['?', d] ?_ ds
            exact List.forall_mem_cons.2 ⟨by decide, List.forall_mem_singleton.2 hd⟩
          rw [parameter]
          split
          case isTrue => rw [htake, hword.size]
          case isFalse =>
            split
            case isTrue => rw [htake, asciiOnly_digits.size]
            case isFalse => rfl
    · rw [hother hopen]
      rfl

theorem asciiOnly_word {opens body : Char → Bool} (hopens : Narrow opens) (hbody : Narrow body) :
    AsciiOnly (word opens body) := by
  have hrun := asciiOnly_leading hbody
  refine asciiOnly_of_cons rfl (fun {c cs} hc => ?_) (fun hc => ?_) fun {c cs} hc => ?_
  · rw [word, hopens c hc, if_neg Bool.false_ne_true,
      if_neg (not_mark_of_wide hc (by decide) (by decide))]
  · rw [word, word, hrun.spread]
  · have htake : size ((c :: cs).take (1 + leading body cs)) = 1 + leading body cs := by
      rw [Nat.add_comm, size_take_cons_succ hc, hrun.size]
    rw [word]
    split
    case isTrue => exact htake
    case isFalse =>
      split
      case isTrue => exact size_take_ite htake
      case isFalse => rfl

theorem quotedIdentifierFrom_pass {ws : List Char} (h : ∀ b ∈ ws, b ≠ '\x60')
    (passed accepted : Nat) (cs : List Char) :
    quotedIdentifierFrom passed accepted (ws ++ cs) =
      quotedIdentifierFrom (passed + ws.length) accepted cs := by
  induction ws generalizing passed with
  | nil => rfl
  | cons b ws ih =>
    rw [List.forall_mem_cons] at h
    rw [List.cons_append, quotedIdentifierFrom_of_ne h.1, ih h.2, List.length_cons, Nat.add_assoc,
      Nat.add_comm 1]

/-- How a name between backquotes goes on in the bytes behind `front`. The backquote before that
is one byte, so that something is behind it in the bytes exactly if something is in the text. -/
theorem quotedIdentifierFrom_spread (front : List Char) {accepted : Nat}
    (haccepted : accepted ≤ front.length + 1) (cs : List Char) :
    quotedIdentifierFrom (size front + 1) (size (('\x60' :: front).take accepted)) (spread cs) =
      size (('\x60' :: (front ++ cs)).take
        (quotedIdentifierFrom (front.length + 1) accepted cs)) := by
  -- What is accepted so far lies in front of whatever is passed next.
  have hkeep : ∀ (front more : List Char) {n : Nat}, n ≤ front.length + 1 →
      ('\x60' :: (front ++ more)).take n = ('\x60' :: front).take n := by
    intro front more n hn
    rw [← List.cons_append, List.take_append_of_le_length (by rwa [List.length_cons])]
  have hsome : ∀ front : List Char, 1 < size front + 1 ↔ 1 < front.length + 1 := by
    intro front
    have hzero := @size_eq_zero_iff front
    rw [← List.length_eq_zero_iff] at hzero
    omega
  -- A backquote that closes what is passed so far is accepted behind it.
  have hclose : ∀ (front more : List Char),
      size (('\x60' :: (front ++ '\x60' :: more)).take (front.length + 1 + 1)) =
        size front + 1 + 1 := by
    intro front more
    rw [size_take_cons_succ (by decide), List.take_length_add_append, size_append]
    rfl
  generalize hpassed : front.length + 1 = passed at haccepted ⊢
  fun_induction quotedIdentifierFrom passed accepted cs generalizing front with
  | case1 passed accepted cs ih =>
    subst hpassed
    have hnext := ih (front ++ ['\x60', '\x60']) (by simp) (by split <;> omega)
    have haccept : size (('\x60' :: (front ++ ['\x60', '\x60'])).take
          (if 1 < front.length + 1 then front.length + 1 + 1 else accepted)) =
        if 1 < size front + 1 then size front + 1 + 1
        else size (('\x60' :: front).take accepted) := by
      simp only [hsome front]
      split
      · exact hclose front ['\x60']
      · rw [hkeep front _ haccepted]
    rw [haccept, size_append, List.append_assoc] at hnext
    rw [spread_cons_of_not_wide (by decide), spread_cons_of_not_wide (by decide),
      quotedIdentifierFrom]
    exact hnext
  | case2 passed accepted cs hlone hblock | case3 passed accepted cs hlone hblock =>
    subst hpassed
    rw [spread_cons_of_not_wide (by decide),
      quotedIdentifierFrom.eq_2 _ _ _ (spread_ne_cons (by decide) hlone)]
    simp only [hsome front, hblock, if_true, if_false, hclose, hkeep front _ haccepted]
  | case4 passed accepted c cs hpair hc ih =>
    subst hpassed
    have hbytes : ∀ b ∈ encoded c, b ≠ '\x60' := fun b hb =>
      mt ((alike_of_mem_encoded hb).eq_iff (by decide)).1 hc
    have hnext := ih (front ++ [c]) (by simp) (by omega)
    rw [hkeep front [c] haccepted, size_append, size_cons, size_nil, List.append_assoc] at hnext
    rw [spread_cons, quotedIdentifierFrom_pass hbytes, length_encoded, Nat.add_right_comm]
    exact hnext
  | case5 passed accepted =>
    subst hpassed
    rw [hkeep front [] haccepted]
    rfl

theorem countsBytes_quotedIdentifier : CountsBytes quotedIdentifier := by
  refine countsBytes_of_prefix ['\x60'] (by decide) (fun ds => ?_) quotedIdentifier.eq_2
  exact quotedIdentifierFrom_spread [] (Nat.zero_le _) ds

theorem narrow_opensPattern : Narrow fun c => c.isAlpha || c == '*' := by
  intro c hc
  simp (disch := decide) [beq_of_wide hc, narrow_isAlpha c hc]

theorem countsBytes_patternPiece : CountsBytes patternPiece :=
  (asciiOnly_word narrow_opensPattern narrow_isWildcardWord).countsBytes.max
    countsBytes_quotedIdentifier

/-! ## Fixed Texts -/

theorem narrow_beq_left {k : Char} (hk : ¬Wide k) : Narrow (k == ·) :=
  fun _ hc => beq_eq_false_iff_ne.2 (ne_of_wide hc hk).symm

/-- Lower case moves ASCII letters only, and to ASCII letters. -/
theorem narrow_sameLetter {k : Char} (hk : ¬Wide k) : Narrow (sameLetter k) := by
  intro c hc
  have hcapitals : IsAscii capitals := by decide
  have hsmall : IsAscii (capitals.map Char.toLower) := by decide
  have hkeep : c.toLower = c :=
    (toLower_eq_or_mem_capitals c).resolve_right fun hmem => hcapitals c hmem hc
  have hlower : ¬Wide k.toLower := by
    rcases toLower_eq_or_mem_capitals k with hsame | hcapital
    · rwa [hsame]
    · exact hsmall _ (List.mem_map_of_mem hcapital)
  rw [sameLetter, hkeep]
  exact narrow_beq_left hlower c hc

end Scan

/-! ## Recognizers -/

namespace Recognizer

open CharClass Scan

/-- A recognizer takes of the bytes of a text those of the characters that it takes. -/
theorem countsBytes_matchLength {r : Recognizer} (h : r.IsAscii) : CountsBytes r.matchLength := by
  cases r with
  | literal text =>
    exact (asciiOnly_fixed fun k hk => narrow_beq_left (h text rfl k hk)).countsBytes
  | keyword text =>
    exact (asciiOnly_fixed fun k hk => narrow_sameLetter (h text rfl k hk)).countsBytes
  | lineComment => exact countsBytes_lineComment
  | blockComment => exact countsBytes_blockComment
  | whitespace => exact (asciiOnly_leading narrow_isBlank).countsBytes
  | unknownCommand => exact countsBytes_leading (uniform_of_wide isCommandWord_of_wide)
  | unquotedSource => exact countsBytes_unquotedSource
  | quotedString => exact countsBytes_quotedString
  | integer => exact asciiOnly_digits.countsBytes
  | decimal => exact asciiOnly_decimal.countsBytes
  | parameter => exact asciiOnly_parameter.countsBytes
  | unquotedIdentifier => exact (asciiOnly_word narrow_isAlpha narrow_isWord).countsBytes
  | quotedIdentifier => exact countsBytes_quotedIdentifier
  | idPattern => exact countsBytes_patternPiece.pieces
  | policyName => exact countsBytes_policyName
  | setting => exact (asciiOnly_leading narrow_isSetting).countsBytes

end Recognizer

end PipeQuery
