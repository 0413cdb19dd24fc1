-- SUMMARY: Laws of the scanners that patterns are built from: runs, fixed texts and repeated pieces, and how they read a text that goes on.
import Mathlib.Data.List.TakeWhile
import PipeQuery.Recognizer.Scan

/-! # Laws of Scanners

A scanner decides from the beginning of a text. Each law says how much of the
text the decision depends on, so that a text may be cut or continued behind that
without changing it. -/

namespace PipeQuery.Scan

/-! ## Runs -/

section Runs

variable {p : Char → Bool}

@[simp] theorem leading_nil : leading p [] = 0 := rfl

theorem leading_cons_of_pos {c : Char} (h : p c = true) (cs : List Char) :
    leading p (c :: cs) = leading p cs + 1 := by
  simp [leading, h]

theorem leading_cons_of_neg {c : Char} (h : p c = false) (cs : List Char) :
    leading p (c :: cs) = 0 := by
  simp [leading, h]

theorem leading_le_length (p : Char → Bool) (cs : List Char) : leading p cs ≤ cs.length :=
  (List.takeWhile_sublist p).length_le

/-- A run takes some character exactly if the first one is in the class. -/
theorem leading_eq_zero_iff {cs : List Char} :
    leading p cs = 0 ↔ ∀ c ∈ cs.head?, p c = false := by
  cases cs with
  | nil => simp
  | cons c cs => cases h : p c <;> simp [leading, h]

theorem leading_pos_iff {c : Char} {cs : List Char} :
    0 < leading p (c :: cs) ↔ p c = true := by
  cases h : p c with
  | false => simp [leading_cons_of_neg h]
  | true => simp [leading_cons_of_pos h]

theorem leading_of_all {cs : List Char} (h : ∀ c ∈ cs, p c = true) : leading p cs = cs.length := by
  rw [leading, List.takeWhile_eq_self_iff.2 h]

theorem forall_mem_take_leading (p : Char → Bool) (cs : List Char) :
    ∀ c ∈ cs.take (leading p cs), p c = true := by
  induction cs with
  | nil => simp
  | cons c cs ih =>
    cases h : p c with
    | false => simp [leading_cons_of_neg h]
    | true => simpa [leading_cons_of_pos h, h] using ih

theorem leading_eq_length_iff {cs : List Char} :
    leading p cs = cs.length ↔ ∀ c ∈ cs, p c = true := by
  refine ⟨fun h => ?_, leading_of_all⟩
  have hall := forall_mem_take_leading p cs
  rwa [h, List.take_length] at hall

/-- Where all of a text is in the class, the run goes on behind it. -/
theorem leading_append_of_all {cs : List Char} (h : ∀ c ∈ cs, p c = true) (ds : List Char) :
    leading p (cs ++ ds) = cs.length + leading p ds := by
  rw [leading, List.takeWhile_append_of_pos h, List.length_append, leading]

theorem take_leading (p : Char → Bool) (cs : List Char) :
    cs.take (leading p cs) = cs.takeWhile p :=
  (List.prefix_iff_eq_take.1 (List.takeWhile_prefix p)).symm

/-- Behind a run stands no character of the class. -/
theorem head?_drop_leading (p : Char → Bool) (cs : List Char) :
    ∀ c ∈ (cs.drop (leading p cs)).head?, p c = false := by
  induction cs with
  | nil => simp
  | cons c cs ih =>
    cases h : p c with
    | false => simp [leading_cons_of_neg h, h]
    | true => simpa [leading_cons_of_pos h] using ih

/-- A text is a run and what follows it. -/
theorem exists_run (p : Char → Bool) (cs : List Char) :
    ∃ ds rest, cs = ds ++ rest ∧ (∀ c ∈ ds, p c = true) ∧ ∀ c ∈ rest.head?, p c = false :=
  ⟨_, _, (List.take_append_drop (leading p cs) cs).symm, forall_mem_take_leading p cs,
    head?_drop_leading p cs⟩

theorem leading_append_of_head {p : Char → Bool} {ds rest : List Char} (hds : ∀ c ∈ ds, p c = true)
    (hrest : ∀ c ∈ rest.head?, p c = false) : leading p (ds ++ rest) = ds.length := by
  rw [leading_append_of_all hds, leading_eq_zero_iff.2 hrest, Nat.add_zero]

end Runs

/-! ## Fixed Texts -/

section Fixed

variable {same : Char → Char → Bool}

@[simp] theorem shared_nil_left (cs : List Char) : shared same [] cs = 0 := by
  cases cs <;> rfl

@[simp] theorem shared_nil_right (text : List Char) : shared same text [] = 0 := by
  cases text <;> rfl

theorem shared_cons_cons (c d : Char) (cs ds : List Char) :
    shared same (c :: cs) (d :: ds) = if same c d then shared same cs ds + 1 else 0 := rfl

theorem shared_le_left (same : Char → Char → Bool) (text cs : List Char) : shared same text cs ≤ text.length := by
  induction text generalizing cs with
  | nil => simp
  | cons c text ih =>
    cases cs with
    | nil => simp
    | cons d cs =>
      rw [shared_cons_cons]
      split
      · exact Nat.succ_le_succ (ih cs)
      · exact Nat.zero_le _

theorem shared_le_right (same : Char → Char → Bool) (text cs : List Char) : shared same text cs ≤ cs.length := by
  induction text generalizing cs with
  | nil => simp
  | cons c text ih =>
    cases cs with
    | nil => simp
    | cons d cs =>
      rw [shared_cons_cons]
      split
      · exact Nat.succ_le_succ (ih cs)
      · exact Nat.zero_le _

/-- What is missing of a fixed text completes what is shared with it. -/
theorem shared_take_append_drop (hrefl : ∀ c, same c c = true) (text cs : List Char) :
    shared same text (cs.take (shared same text cs) ++ text.drop (shared same text cs)) =
      text.length := by
  induction text generalizing cs with
  | nil => simp
  | cons c text ih =>
    -- Where the texts differ at once, nothing is kept and the fixed text is its own completion.
    have hself : ∀ ds, shared same ds ds = ds.length := by
      intro ds
      induction ds with
      | nil => rfl
      | cons d ds ih => simp [shared_cons_cons, hrefl, ih]
    cases cs with
    | nil => simp [hself]
    | cons d cs =>
      rw [shared_cons_cons]
      by_cases h : same c d = true
      · simp [h, shared_cons_cons, ih]
      · simp [h, hself]

/-- What is shared with a beginning is shared however the text goes on. -/
theorem min_shared_le_shared_append (same : Char → Char → Bool) (text p s s' : List Char) :
    min p.length (shared same text (p ++ s)) ≤ shared same text (p ++ s') := by
  induction p generalizing text with
  | nil =>
    rw [List.length_nil, Nat.zero_min]
    exact Nat.zero_le _
  | cons d p ih =>
    cases text with
    | nil => simp
    | cons c text =>
      rw [List.cons_append, shared_cons_cons, List.cons_append, shared_cons_cons]
      cases same c d with
      | false => simp
      | true =>
        rw [if_pos rfl, if_pos rfl, List.length_cons, Nat.succ_min_succ]
        exact Nat.succ_le_succ (ih text)

theorem fixed_pos_iff {text cs : List Char} (hne : text ≠ []) :
    0 < fixed same text cs ↔ shared same text cs = text.length := by
  have hpos := List.length_pos_iff.2 hne
  unfold fixed
  split <;> simp_all

theorem head?_of_fixed_pos {k : Char} {cs : List Char} (h : 0 < fixed (· == ·) [k] cs) :
    cs.head? = some k := by
  cases cs with
  | nil => simp [fixed] at h
  | cons c cs =>
    by_cases hc : k = c
    · rw [hc]
      rfl
    · simp [fixed, shared_cons_cons, hc] at h

end Fixed

/-! ## Pieces -/

section Pieces

variable {piece : List Char → Nat}

@[simp] theorem pieces_nil : pieces piece [] = 0 := rfl

theorem piecesFrom_eq (piece : List Char → Nat) (cs : List Char) (pending taken : Nat) :
    piecesFrom piece cs pending taken = taken + pieces piece (cs.drop pending) := by
  induction cs generalizing pending taken with
  | nil => simp [piecesFrom]
  | cons c cs ih =>
    cases pending with
    | succ pending => rw [piecesFrom, ih, List.drop_succ_cons]
    | zero =>
      rw [List.drop_zero, pieces, piecesFrom, piecesFrom]
      cases piece (c :: cs) with
      | zero => rfl
      | succ n =>
        simp only [ih]
        omega

theorem pieces_of_zero {cs : List Char} (h : piece cs = 0) : pieces piece cs = 0 := by
  cases cs with
  | nil => rfl
  | cons c cs => simp [pieces, piecesFrom, h]

/-- A first piece, and then the pieces of what is left. -/
theorem pieces_of_pos {cs : List Char} (hne : cs ≠ []) (h : 0 < piece cs) :
    pieces piece cs = piece cs + pieces piece (cs.drop (piece cs)) := by
  obtain ⟨c, cs, rfl⟩ := List.exists_cons_of_ne_nil hne
  obtain ⟨n, hn⟩ : ∃ n, piece (c :: cs) = n + 1 := ⟨piece (c :: cs) - 1, by omega⟩
  rw [pieces, piecesFrom, hn]
  simp only [piecesFrom_eq]
  rw [List.drop_succ_cons, Nat.zero_add]

/-- A text that begins with a piece, and goes on behind it. -/
theorem pieces_append {first : List Char} (hne : first ≠ []) {ds : List Char}
    (h : piece (first ++ ds) = first.length) :
    pieces piece (first ++ ds) = first.length + pieces piece ds := by
  have hpos : 0 < piece (first ++ ds) := by
    rw [h]
    exact List.length_pos_iff.2 hne
  rw [pieces_of_pos (List.append_ne_nil_of_left_ne_nil hne ds) hpos, h, List.drop_left]

/-- Goes over a text piece after piece. -/
theorem pieces_induction (piece : List Char → Nat) {motive : List Char → Prop}
    (stop : ∀ cs, cs = [] ∨ piece cs = 0 → motive cs)
    (step : ∀ cs, cs ≠ [] → 0 < piece cs → motive (cs.drop (piece cs)) → motive cs)
    (cs : List Char) : motive cs := by
  induction hn : cs.length using Nat.strongRecOn generalizing cs with
  | ind n ih =>
    by_cases hne : cs = []
    · exact stop cs (.inl hne)
    · rcases Nat.eq_zero_or_pos (piece cs) with hzero | hpos
      · exact stop cs (.inr hzero)
      · have hlen := List.length_pos_iff.2 hne
        refine step cs hne hpos (ih _ ?_ _ rfl)
        rw [List.length_drop]
        omega

theorem pieces_of_stop {cs : List Char} (h : cs = [] ∨ piece cs = 0) : pieces piece cs = 0 := by
  rcases h with rfl | h
  · rfl
  · exact pieces_of_zero h

/-- Pieces are taken exactly if there is a first one. -/
theorem pieces_pos_iff {cs : List Char} (hne : cs ≠ []) : 0 < pieces piece cs ↔ 0 < piece cs := by
  rcases Nat.eq_zero_or_pos (piece cs) with hzero | hpos
  · rw [pieces_of_zero hzero, hzero]
  · rw [pieces_of_pos hne hpos]
    omega

theorem pieces_le_length (hpiece : ∀ cs, piece cs ≤ cs.length) (cs : List Char) :
    pieces piece cs ≤ cs.length := by
  induction cs using pieces_induction piece with
  | stop cs h => rw [pieces_of_stop h]; exact Nat.zero_le _
  | step cs hne hpos ih =>
    have hle := hpiece cs
    rw [List.length_drop] at ih
    rw [pieces_of_pos hne hpos]
    omega

/-- Behind the last piece stands none. -/
theorem piece_drop_pieces (piece : List Char → Nat) (cs : List Char) :
    cs.drop (pieces piece cs) = [] ∨ piece (cs.drop (pieces piece cs)) = 0 := by
  induction cs using pieces_induction piece with
  | stop cs h => rwa [pieces_of_stop h, List.drop_zero]
  | step cs hne hpos ih => rwa [pieces_of_pos hne hpos, ← List.drop_drop]

/-- A piece is settled by the characters it takes, whatever follows them. -/
def Settled (piece : List Char → Nat) : Prop :=
  ∀ cs, piece cs ≤ cs.length ∧
    (0 < piece cs → ∀ ds, piece (cs.take (piece cs) ++ ds) = piece cs)

theorem Settled.pieces_le_length (h : Settled piece) (cs : List Char) :
    pieces piece cs ≤ cs.length :=
  Scan.pieces_le_length (fun cs => (h cs).1) cs

theorem Settled.length_take_pieces (h : Settled piece) (cs : List Char) :
    (cs.take (pieces piece cs)).length = pieces piece cs := by
  rw [List.length_take]
  exact Nat.min_eq_left (h.pieces_le_length cs)

/-- Settled pieces are taken again from a text that goes on otherwise behind them. -/
theorem pieces_take_append (h : Settled piece) (cs ds : List Char) :
    pieces piece (cs.take (pieces piece cs) ++ ds) = pieces piece cs + pieces piece ds := by
  induction cs using pieces_induction piece with
  | stop cs hstop => simp [pieces_of_stop hstop]
  | step cs hne hpos ih =>
    obtain ⟨hle, hsame⟩ := h cs
    have hlen : (cs.take (piece cs)).length = piece cs := by
      rw [List.length_take]
      omega
    have hfirst : cs.take (piece cs) ≠ [] := by
      rw [← List.length_pos_iff, hlen]
      exact hpos
    rw [pieces_of_pos hne hpos, List.take_add, List.append_assoc,
      pieces_append hfirst (by rw [hsame hpos, hlen]), hlen, ih, Nat.add_assoc]

end Pieces

/-! ## Pieces of Sources and Strings -/

@[simp] theorem sourcePiece_slash (c : Char) (cs : List Char) :
    sourcePiece ('/' :: c :: cs) = if c = '*' ∨ c = '/' then 0 else 2 := rfl

@[simp] theorem sourcePiece_slash_nil : sourcePiece ['/'] = 0 := rfl

theorem sourcePiece_of_ne {c : Char} (h : c ≠ '/') (cs : List Char) :
    sourcePiece (c :: cs) = if CharClass.isSource c then 1 else 0 := by
  unfold sourcePiece
  split
  case h_1 heq => exact absurd (List.cons.inj heq).1 h
  case h_2 heq => rw [(List.cons.inj heq).1]
  case h_3 heq => exact absurd heq nofun

theorem settled_sourcePiece : Settled sourcePiece := by
  intro cs
  match cs with
  | [] => exact ⟨Nat.le_refl _, fun h => absurd h (Nat.lt_irrefl _)⟩
  | c :: cs =>
    by_cases hslash : c = '/'
    · subst hslash
      cases cs with
      | nil => simp
      | cons d cs => by_cases h : d = '*' ∨ d = '/' <;> simp [h]
    · rw [sourcePiece_of_ne hslash]
      cases h : CharClass.isSource c <;> simp [sourcePiece_of_ne hslash, h]

@[simp] theorem stringPiece_escape (c : Char) (cs : List Char) :
    stringPiece ('\\' :: c :: cs) = if isEscaped c then 2 else 0 := rfl

@[simp] theorem stringPiece_escape_nil : stringPiece ['\\'] = 0 := rfl

theorem stringPiece_of_ne {c : Char} (h : c ≠ '\\') (cs : List Char) :
    stringPiece (c :: cs) = if c = '"' ∨ CharClass.isLineEnd c then 0 else 1 := by
  unfold stringPiece
  split
  case h_1 heq => exact absurd (List.cons.inj heq).1 h
  case h_2 heq =>
    rw [← (List.cons.inj heq).1]
    simp [h]
  case h_3 heq => exact absurd heq nofun

theorem settled_stringPiece : Settled stringPiece := by
  intro cs
  match cs with
  | [] => exact ⟨Nat.le_refl _, fun h => absurd h (Nat.lt_irrefl _)⟩
  | c :: cs =>
    by_cases hescape : c = '\\'
    · subst hescape
      cases cs with
      | nil => simp
      | cons d cs => cases h : isEscaped d <;> simp [h]
    · rw [stringPiece_of_ne hescape]
      by_cases h : c = '"' ∨ CharClass.isLineEnd c <;> simp [stringPiece_of_ne hescape, h]

/-! ## Strings and Quoted Names -/

theorem simpleString_quote (cs : List Char) :
    simpleString ('"' :: cs) =
      if (cs.drop (pieces stringPiece cs)).head? = some '"' then pieces stringPiece cs + 2 else 0 := by
  rw [simpleString]
  split
  case h_1 rest hrest => rw [hrest, List.head?_cons, if_pos rfl]
  case h_2 hrest =>
    rw [if_neg]
    intro hhead
    obtain ⟨rest, heq⟩ := List.head?_eq_some_iff.1 hhead
    exact hrest rest heq

theorem beforeTriple_add (count : Nat) (cs : List Char) :
    beforeTriple count cs = (beforeTriple 0 cs).map (count + ·) := by
  induction cs generalizing count with
  | nil => rfl
  | cons c cs ih =>
    rw [beforeTriple, beforeTriple, ih (count + 1), ih (0 + 1)]
    split
    · rfl
    · rw [Option.map_map]
      congr 1
      funext n
      simp only [Function.comp_apply]
      omega

theorem tripleString_marks (cs : List Char) :
    tripleString ('"' :: '"' :: '"' :: cs) =
      (beforeTriple 0 (cs.takeWhile fun c => !CharClass.isLineEnd c)).elim 0 fun body =>
        body + 6 + min 2 (leading (· == '"') (cs.drop (body + 3))) := by
  rw [tripleString]
  cases beforeTriple 0 (cs.takeWhile fun c => !CharClass.isLineEnd c) <;> rfl

theorem quotedIdentifierFrom_of_ne {c : Char} (h : c ≠ '\x60') (passed accepted : Nat)
    (cs : List Char) :
    quotedIdentifierFrom passed accepted (c :: cs) = quotedIdentifierFrom (passed + 1) accepted cs := by
  rw [quotedIdentifierFrom]
  · exact fun _ hc _ => h hc
  · exact h

end PipeQuery.Scan
