-- SUMMARY: The languages that lexemes are written in, and what it is for a scanner to take the longest beginning that is in a language.
import Mathlib.Computability.Language
import PipeQuery.Proofs.Recognizer.Cut
import PipeQuery.Proofs.Text.Offsets

/-! # Languages of Lexemes

A lexeme is described by a language, put together from classes of characters. A scanner reads
a language if it takes the longest beginning of any text that is in it. For a scanner that is
steady this is settled by the texts that it takes as a whole. -/

open scoped Computability

namespace PipeQuery

namespace Grammar

/-! ## Building -/

/-- One character of a class. -/
def one (p : Char → Bool) : Language Char :=
  {w | ∃ c, p c = true ∧ w = [c]}

/-- One of the characters that are listed. -/
def oneOf (cs : List Char) : Language Char :=
  one fun c => c ∈ cs

/-- One character that is not listed. -/
def noneOf (cs : List Char) : Language Char :=
  one fun c => c ∉ cs

/-- This text only. -/
def exactly (text : List Char) : Language Char :=
  {text}

/-- One word or more. -/
def plus (l : Language Char) : Language Char :=
  l * l∗

def optional (l : Language Char) : Language Char :=
  1 + l

variable {p q : Char → Bool} {l m : Language Char} {w text : List Char}

theorem mem_one {c : Char} : [c] ∈ one p ↔ p c = true :=
  ⟨fun ⟨_, h, heq⟩ => by rwa [(List.cons.inj heq).1], fun h => ⟨c, h, rfl⟩⟩

theorem cons_mem_one_mul {c : Char} : c :: w ∈ one p * l ↔ p c = true ∧ w ∈ l := by
  rw [Language.mem_mul]
  constructor
  · rintro ⟨_, ⟨d, hd, rfl⟩, v, hv, heq⟩
    obtain ⟨rfl, rfl⟩ := List.cons.inj heq
    exact ⟨hd, hv⟩
  · rintro ⟨hc, hw⟩
    exact ⟨[c], mem_one.2 hc, w, hw, rfl⟩

theorem mem_exactly_mul : w ∈ exactly text * l ↔ ∃ v ∈ l, w = text ++ v := by
  rw [Language.mem_mul]
  constructor
  · rintro ⟨_, rfl, v, hv, rfl⟩
    exact ⟨v, hv, rfl⟩
  · rintro ⟨v, hv, rfl⟩
    exact ⟨text, rfl, v, hv, rfl⟩

theorem mem_optional : w ∈ optional l ↔ w = [] ∨ w ∈ l := by
  rw [optional, Language.mem_add, Language.mem_one]

theorem mem_star_one : w ∈ (one p)∗ ↔ ∀ c ∈ w, p c = true := by
  rw [Language.mem_kstar]
  constructor
  · rintro ⟨ws, rfl, hws⟩ c hc
    obtain ⟨v, hv, hcv⟩ := List.mem_flatten.1 hc
    obtain ⟨d, hd, rfl⟩ := hws v hv
    rwa [List.mem_singleton.1 hcv]
  · intro h
    have hflatten : (w.map fun c => [c]).flatten = w := by
      rw [← List.flatMap_def, List.flatMap_singleton']
    refine ⟨w.map fun c => [c], hflatten.symm, fun v hv => ?_⟩
    obtain ⟨c, hc, rfl⟩ := List.mem_map.1 hv
    exact mem_one.2 (h c hc)

theorem mem_plus : w ∈ plus l ↔ ∃ ws, ws ≠ [] ∧ (∀ v ∈ ws, v ∈ l) ∧ w = ws.flatten := by
  rw [plus, Language.mem_mul]
  constructor
  · rintro ⟨v, hv, _, hrest, rfl⟩
    obtain ⟨ws, rfl, hws⟩ := Language.mem_kstar.1 hrest
    exact ⟨v :: ws, List.cons_ne_nil v ws, List.forall_mem_cons.2 ⟨hv, hws⟩, rfl⟩
  · rintro ⟨ws, hne, hws, rfl⟩
    obtain ⟨v, ws, rfl⟩ := List.exists_cons_of_ne_nil hne
    obtain ⟨hv, hws⟩ := List.forall_mem_cons.1 hws
    exact ⟨v, hv, ws.flatten, Language.join_mem_kstar hws, rfl⟩

theorem mem_plus_one : w ∈ plus (one p) ↔ w ≠ [] ∧ ∀ c ∈ w, p c = true := by
  rw [plus, Language.mem_mul]
  constructor
  · rintro ⟨_, ⟨c, hc, rfl⟩, v, hv, rfl⟩
    exact ⟨List.cons_ne_nil c v, List.forall_mem_cons.2 ⟨hc, mem_star_one.1 hv⟩⟩
  · rintro ⟨hne, hw⟩
    obtain ⟨c, v, rfl⟩ := List.exists_cons_of_ne_nil hne
    obtain ⟨hc, hv⟩ := List.forall_mem_cons.1 hw
    exact ⟨[c], mem_one.2 hc, v, mem_star_one.2 hv, rfl⟩

/-! ## Longest Beginnings -/

/-- The size of the longest beginning of a text that is in a language, or 0 if none is. -/
inductive LongestIn (l : Language Char) (cs : List Char) : Nat → Prop
  | found {p : List Char} (begins : p <+: cs) (mem : p ∈ l)
      (longest : ∀ q, q <+: cs → q ∈ l → q.length ≤ p.length) : LongestIn l cs (Text.size p)
  | missing (h : ∀ q, q <+: cs → q ∉ l) : LongestIn l cs 0

end Grammar

namespace Scan

open Grammar

/-! ## Reading -/

/-- A scanner takes as a whole the words of a language, of which none is empty. -/
structure Reads (scan : List Char → Nat) (l : Language Char) : Prop where
  le_length : ∀ cs, scan cs ≤ cs.length
  steady : Steady scan
  mem_iff : ∀ w, w ∈ l ↔ w ≠ [] ∧ scan w = w.length

namespace Reads

variable {scan other piece : List Char → Nat} {l m : Language Char}

theorem take_mem (h : Reads scan l) {cs : List Char} (hpos : 0 < scan cs) :
    cs.take (scan cs) ∈ l := by
  have hlength : (cs.take (scan cs)).length = scan cs := by
    rw [List.length_take, Nat.min_eq_left (h.le_length cs)]
  refine (h.mem_iff _).2 ⟨?_, by rw [h.steady.take_self, hlength]⟩
  rw [← List.length_pos_iff, hlength]
  exact hpos

theorem length_le (h : Reads scan l) {cs q : List Char} (hq : q <+: cs) (hmem : q ∈ l) :
    q.length ≤ scan cs := by
  rw [← ((h.mem_iff q).1 hmem).2]
  exact h.steady.le_of_prefix hq

theorem size_le {r : Recognizer} (h : Reads r.matchLength l) {cs q : List Char} (hq : q <+: cs)
    (hmem : q ∈ l) : Text.size q ≤ r.matchSize cs := by
  refine Text.size_le_of_prefix (List.prefix_of_prefix_length_le hq (List.take_prefix _ _) ?_)
  rw [List.length_take, Nat.min_eq_left (h.le_length cs)]
  exact h.length_le hq hmem

/-- What is taken is the longest beginning that is in the language. -/
theorem longestIn {r : Recognizer} (h : Reads r.matchLength l) (cs : List Char) :
    LongestIn l cs (r.matchSize cs) := by
  rcases Nat.eq_zero_or_pos (r.matchLength cs) with hzero | hpos
  · rw [Recognizer.matchSize, hzero]
    refine .missing fun q hq hmem => ?_
    have hlength := h.length_le hq hmem
    have hne := List.length_pos_iff.2 ((h.mem_iff q).1 hmem).1
    omega
  · refine .found (List.take_prefix _ cs) (h.take_mem hpos) fun q hq hmem => ?_
    rw [List.length_take, Nat.min_eq_left (h.le_length cs)]
    exact h.length_le hq hmem

theorem mem_optional (h : Reads scan l) {w : List Char} :
    w ∈ optional l ↔ scan w = w.length := by
  rw [Grammar.mem_optional, h.mem_iff]
  by_cases hnil : w = []
  · subst hnil
    exact iff_of_true (.inl rfl) (Nat.le_zero.1 (h.le_length []))
  · simp [hnil]

protected theorem max (h : Reads scan l) (h' : Reads other m) :
    Reads (fun cs => max (scan cs) (other cs)) (l + m) where
  le_length cs := Nat.max_le.2 ⟨h.le_length cs, h'.le_length cs⟩
  steady := h.steady.max h'.steady
  mem_iff w := by
    have hle := h.le_length w
    have hle' := h'.le_length w
    rw [Language.mem_add, h.mem_iff, h'.mem_iff, ← and_or_left]
    refine and_congr_right fun _ => ?_
    omega

/-- Words are taken piece after piece if a piece that takes more than the first one takes a
word that the first two make up. -/
theorem pieces_flatten (h : Reads piece l)
    (hmerge : ∀ v ∈ l, ∀ w ∈ l, ∀ ds, v.length < piece (v ++ (w ++ ds)) → v ++ w ∈ l) :
    ∀ ws : List (List Char), (∀ w ∈ ws, w ∈ l) → pieces piece ws.flatten = ws.flatten.length
  | [], _ => rfl
  | [w], hws => by
    obtain ⟨hne, hall⟩ := (h.mem_iff w).1 (hws w List.mem_cons_self)
    have hfirst : piece (w ++ []) = w.length := by rwa [List.append_nil]
    rw [List.flatten_cons, List.flatten_nil, pieces_append hne hfirst, List.append_nil]
    rfl
  | v :: w :: ws, hws => by
    obtain ⟨hv, hrest⟩ := List.forall_mem_cons.1 hws
    obtain ⟨hw, hws⟩ := List.forall_mem_cons.1 hrest
    obtain ⟨hne, hall⟩ := (h.mem_iff v).1 hv
    have hle := h.steady.le_of_prefix (List.prefix_append v (w ++ ws.flatten))
    rw [hall] at hle
    rcases Nat.eq_or_lt_of_le hle with heq | hlonger
    · have hfirst : pieces piece (v ++ (w :: ws).flatten) =
          v.length + pieces piece (w :: ws).flatten := pieces_append hne heq.symm
      rw [List.flatten_cons, hfirst, pieces_flatten h hmerge (w :: ws) hrest, List.length_append]
    · -- The first piece reaches into the second word, so that the two are one word of a shorter list.
      have hvw := hmerge v hv w hw ws.flatten hlonger
      have hflatten : (v :: w :: ws).flatten = ((v ++ w) :: ws).flatten := by
        simp only [List.flatten_cons, List.append_assoc]
      rw [hflatten]
      exact pieces_flatten h hmerge ((v ++ w) :: ws) (List.forall_mem_cons.2 ⟨hvw, hws⟩)
  termination_by ws => ws.length

/-- What is taken piece after piece is made up of words. -/
theorem mem_star_of_pieces (h : Reads piece l) {cs : List Char}
    (hall : pieces piece cs = cs.length) : cs ∈ l∗ := by
  induction cs using pieces_induction piece with
  | stop cs hstop =>
    rw [pieces_of_stop hstop] at hall
    rw [List.eq_nil_of_length_eq_zero hall.symm]
    exact Language.nil_mem_kstar l
  | step cs hne hpos ih =>
    rw [pieces_of_pos hne hpos] at hall
    have hrest := ih (by rw [List.length_drop]; omega)
    have hmem := Language.append_mem_mul (h.take_mem hpos) hrest
    rw [List.take_append_drop] at hmem
    exact Set.mem_of_mem_of_subset hmem (mul_kstar_le_kstar (a := l))

theorem pieces (h : Reads piece l)
    (hmerge : ∀ v ∈ l, ∀ w ∈ l, ∀ ds, v.length < piece (v ++ (w ++ ds)) → v ++ w ∈ l) :
    Reads (pieces piece) (plus l) where
  le_length := pieces_le_length h.le_length
  steady := h.steady.pieces h.le_length
  mem_iff w := by
    constructor
    · intro hw
      obtain ⟨ws, hne, hws, rfl⟩ := mem_plus.1 hw
      refine ⟨?_, h.pieces_flatten hmerge ws hws⟩
      obtain ⟨v, ws, rfl⟩ := List.exists_cons_of_ne_nil hne
      exact List.append_ne_nil_of_left_ne_nil ((h.mem_iff v).1 (hws v List.mem_cons_self)).1 _
    · rintro ⟨hne, hall⟩
      obtain ⟨ws, rfl, hws⟩ := Language.mem_kstar.1 (h.mem_star_of_pieces hall)
      refine mem_plus.2 ⟨ws, ?_, hws, rfl⟩
      rintro rfl
      exact hne rfl

/-- A settled piece never takes more than the first of two. -/
theorem pieces_of_settled (h : Reads piece l) (hsettled : Settled piece) :
    Reads (Scan.pieces piece) (plus l) := by
  refine h.pieces fun v hv w _ ds hlonger => ?_
  obtain ⟨hne, hall⟩ := (h.mem_iff v).1 hv
  have hsame := (hsettled v).2 (hall ▸ List.length_pos_iff.2 hne) (w ++ ds)
  rw [hall, List.take_length] at hsame
  omega

theorem mem_star (h : Reads scan (plus l)) {w : List Char} : w ∈ l∗ ↔ scan w = w.length := by
  rw [← Language.one_add_self_mul_kstar_eq_kstar]
  exact h.mem_optional

end Reads

end Scan

end PipeQuery
