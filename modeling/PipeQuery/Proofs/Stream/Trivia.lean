-- SUMMARY: The hidden tokens in front of each significant token, put back between the significant ones, give all tokens again.
import Mathlib.Data.List.DropRight
import PipeQuery.Proofs.Tokenizer.Tiling
import PipeQuery.Stream.Basic

/-! # Trivia of Streams

A list of tokens is made of stretches: hidden tokens and the significant token behind them.
What stands in front of a significant token is the hidden part of its stretch, so that no hidden
token is lost or given to two others. Only behind the last significant token there may be more. -/

namespace PipeQuery

namespace TokenStream

/-! ## Stretches -/

/-- Goes through a list of tokens stretch by stretch. -/
theorem stretch_induction {motive : List Token → Prop}
    (atEnd : ∀ stretch, (∀ t ∈ stretch, t.isHidden = true) → motive stretch)
    (before : ∀ stretch t rest, (∀ u ∈ stretch, u.isHidden = true) → t.isHidden = false →
      motive rest → motive (stretch ++ t :: rest))
    (tokens : List Token) : motive tokens := by
  -- Hidden tokens are gathered until a token ends their stretch.
  suffices h : ∀ stretch : List Token, (∀ t ∈ stretch, t.isHidden = true) →
      motive (stretch ++ tokens) from h [] (List.forall_mem_nil _)
  induction tokens with
  | nil =>
    intro stretch hstretch
    rw [List.append_nil]
    exact atEnd stretch hstretch
  | cons t rest ih =>
    intro stretch hstretch
    cases ht : t.isHidden with
    | false => exact before stretch t rest hstretch ht (ih [] (List.forall_mem_nil _))
    | true =>
      have hmore : ∀ u ∈ stretch ++ [t], u.isHidden = true :=
        List.forall_mem_append.2 ⟨hstretch, List.forall_mem_singleton.2 ht⟩
      have hlonger := ih (stretch ++ [t]) hmore
      rwa [List.append_assoc, List.singleton_append] at hlonger

section Stretches

variable {stretch rest : List Token} {t : Token} (hstretch : ∀ u ∈ stretch, u.isHidden = true)
include hstretch

theorem filter_isSignificant_stretch : stretch.filter Token.isSignificant = [] := by
  refine List.filter_eq_nil_iff.2 fun u hu => ?_
  rw [u.isSignificant_eq, hstretch u hu]
  exact nofun

/-- None of them is counted. -/
theorem filter_zipIdx_stretch (k : Nat) :
    (stretch.zipIdx k).filter (·.1.isSignificant) = [] := by
  refine List.filter_eq_nil_iff.2 fun entry hentry => ?_
  rw [entry.1.isSignificant_eq, hstretch _ (List.fst_mem_of_mem_zipIdx hentry)]
  exact nofun

theorem significantPlaces_stretch : significantPlaces stretch = [] := by
  rw [significantPlaces, filter_zipIdx_stretch hstretch]
  rfl

variable (ht : t.isHidden = false)
include ht

/-- The first token that is not hidden is counted where it stands, and all behind it from
there on. -/
theorem significantPlaces_append_cons :
    significantPlaces (stretch ++ t :: rest) =
      stretch.length :: (significantPlaces rest).map (stretch.length + 1 + ·) := by
  have hvisible : t.isSignificant = true := by rw [t.isSignificant_eq, ht]; rfl
  rw [significantPlaces, List.zipIdx_append, List.filter_append, filter_zipIdx_stretch hstretch,
    List.nil_append, List.zipIdx_cons, Nat.zero_add, List.filter_cons_of_pos (by exact hvisible),
    List.zipIdx_eq_map_add, List.filter_map]
  simp [significantPlaces, Function.comp_def]

theorem filter_isSignificant_append_cons :
    (stretch ++ t :: rest).filter Token.isSignificant = t :: rest.filter Token.isSignificant := by
  have hvisible : t.isSignificant = true := by rw [t.isSignificant_eq, ht]; rfl
  rw [List.filter_append, filter_isSignificant_stretch hstretch, List.nil_append,
    List.filter_cons_of_pos hvisible]

end Stretches

/-- What is hidden at the end stands behind the last token that is not. -/
theorem rtakeWhile_isHidden_append_cons {t : Token} (ht : t.isHidden = false)
    (front rest : List Token) :
    (front ++ t :: rest).rtakeWhile Token.isHidden = rest.rtakeWhile Token.isHidden := by
  induction rest using List.reverseRecOn with
  | nil => exact List.rtakeWhile_concat_neg _ _ _ (by rw [ht]; exact nofun)
  | append_singleton rest last ih =>
    rw [← List.cons_append, ← List.append_assoc, List.rtakeWhile_concat, List.rtakeWhile_concat, ih]

/-! ## Cuts

A stream cuts its tokens at the places it counted: each cut begins behind one place and ends
in front of the next. -/

/-- What stands in front of each place, behind the place before it. -/
def cuts (tokens : List Token) : List (List Token) :=
  List.zipWith (fun start stop => tokens.extract start stop)
    (0 :: (significantPlaces tokens).map (· + 1)) (significantPlaces tokens)

theorem cuts_stretch {stretch : List Token} (h : ∀ t ∈ stretch, t.isHidden = true) :
    cuts stretch = [] := by
  rw [cuts, significantPlaces_stretch h]
  rfl

/-- A slice behind the front of a list is a slice of the rest. -/
theorem extract_append_cons (stretch rest : List Token) (t : Token) (a b : Nat) :
    (stretch ++ t :: rest).extract (stretch.length + 1 + a) (stretch.length + 1 + b) =
      rest.extract a b := by
  have hfront : stretch ++ t :: rest = (stretch ++ [t]) ++ rest := by simp
  have hlength : stretch.length + 1 = (stretch ++ [t]).length := by simp
  rw [List.extract_eq_take_drop, List.extract_eq_take_drop, Nat.add_sub_add_left, hfront, hlength,
    List.drop_length_add_append]

/-- The first cut is the first stretch, and the others are those of the rest. -/
theorem cuts_append_cons {stretch rest : List Token} {t : Token}
    (hstretch : ∀ u ∈ stretch, u.isHidden = true) (ht : t.isHidden = false) :
    cuts (stretch ++ t :: rest) = stretch :: cuts rest := by
  have hfirst : (stretch ++ t :: rest).extract 0 stretch.length = stretch := by simp
  -- Behind the first place all starts and stops are moved by the same distance.
  have hstarts : ((stretch.length :: (significantPlaces rest).map (stretch.length + 1 + ·)).map
      (· + 1)) = (0 :: (significantPlaces rest).map (· + 1)).map (stretch.length + 1 + ·) := by
    simp [Nat.add_assoc]
  rw [cuts, significantPlaces_append_cons hstretch ht, List.zipWith_cons_cons, hfirst, hstarts,
    List.zipWith_map, cuts]
  simp only [extract_append_cons]

theorem length_cuts (tokens : List Token) :
    (cuts tokens).length = (tokens.filter Token.isSignificant).length := by
  simp [cuts]

theorem isHidden_of_mem_cuts (tokens : List Token) :
    ∀ cut ∈ cuts tokens, ∀ t ∈ cut, t.isHidden = true := by
  induction tokens using stretch_induction with
  | atEnd stretch hstretch =>
    rw [cuts_stretch hstretch]
    exact List.forall_mem_nil _
  | before stretch t rest hstretch ht ih =>
    rw [cuts_append_cons hstretch ht]
    exact List.forall_mem_cons.2 ⟨hstretch, ih⟩

/-- The cuts with the significant tokens behind them, and what is hidden at the end, are the
whole list. -/
theorem flatten_cuts (tokens : List Token) :
    (List.zipWith (fun cut t => cut ++ [t]) (cuts tokens)
        (tokens.filter Token.isSignificant)).flatten ++ tokens.rtakeWhile Token.isHidden =
      tokens := by
  induction tokens using stretch_induction with
  | atEnd stretch hstretch =>
    rw [filter_isSignificant_stretch hstretch, List.rtakeWhile_eq_self_iff.2 hstretch,
      List.zipWith_nil_right]
    rfl
  | before stretch t rest hstretch ht ih =>
    rw [filter_isSignificant_append_cons hstretch ht, cuts_append_cons hstretch ht,
      rtakeWhile_isHidden_append_cons ht, List.zipWith_cons_cons, List.flatten_cons,
      List.append_assoc, ih, List.append_assoc, List.singleton_append]

/-! ## Slices of Streams -/

section Slices

variable (s : TokenStream)

theorem toList_significant : s.significant.toList = s.tokens.filter Token.isSignificant := by
  refine List.ext_getElem? fun i => ?_
  rw [← getElem?_places_bind]
  by_cases h : i < s.places.size
  · have hplace : s.places[i] < s.all.size := s.lt_size_of_mem_places (Array.getElem_mem h)
    simp [significant, h, hplace]
  · simp [significant, h]

theorem pairwise_significantPlaces (tokens : List Token) :
    (significantPlaces tokens).Pairwise (· < ·) := by
  have hall : (tokens.zipIdx.map (·.2)).Pairwise (· < ·) := by
    rw [List.zipIdx_map_snd]
    exact List.pairwise_lt_range'
  exact hall.sublist (List.filter_sublist.map _)

/-- Places ascend and stay within the tokens, so that no slice is out of range. -/
theorem startBefore_le {i : Nat} (h : i < s.places.size) :
    s.startBefore i h ≤ s.places[i] ∧ s.places[i] < s.all.size := by
  refine ⟨?_, s.lt_size_of_mem_places (Array.getElem_mem h)⟩
  cases i with
  | zero => exact Nat.zero_le _
  | succ i =>
    have hascend := pairwise_significantPlaces s.tokens
    rw [tokens, ← s.places_eq] at hascend
    exact List.pairwise_iff_getElem.1 hascend i (i + 1) (Nat.lt_of_succ_lt h) h (Nat.lt_succ_self i)

theorem getElem?_cuts {i : Nat} (h : i < s.places.size) :
    (cuts s.tokens)[i]? = some (s.tokens.extract (s.startBefore i h) s.places[i]) := by
  have hplace : ∀ j (hj : j < s.places.size),
      (significantPlaces s.tokens)[j]? = some s.places[j] := by
    intro j hj
    rw [tokens, ← s.places_eq, Array.getElem?_toList]
    exact Array.getElem?_eq_getElem hj
  have hstart : (0 :: (significantPlaces s.tokens).map (· + 1))[i]? = some (s.startBefore i h) := by
    cases i with
    | zero => rfl
    | succ i => simp [hplace i (Nat.lt_of_succ_lt h), startBefore]
  rw [cuts, List.getElem?_zipWith, hstart, hplace i h]

/-- A stream slices its tokens where they are cut. -/
theorem hiddenBefore_eq (i : Nat) : s.hiddenBefore i = (cuts s.tokens)[i]?.getD [] := by
  by_cases h : i < s.places.size
  · rw [hiddenBefore, dif_pos h, getElem?_cuts s h, Array.toList_extract]
    rfl
  · have hnone : (cuts s.tokens).length ≤ i := by
      rw [length_cuts, ← s.size_eq]
      exact Nat.not_lt.1 h
    rw [hiddenBefore, dif_neg h, List.getElem?_eq_none hnone]
    rfl

/-- Each significant token behind the hidden ones in front of it. -/
def interleaved : List Token :=
  (s.significant.toList.mapIdx fun i t => s.hiddenBefore i ++ [t]).flatten

theorem interleaved_append : s.interleaved ++ s.tokens.rtakeWhile Token.isHidden = s.tokens := by
  have hcuts : (s.significant.toList.mapIdx fun i t => s.hiddenBefore i ++ [t]) =
      List.zipWith (fun cut t => cut ++ [t]) (cuts s.tokens)
        (s.tokens.filter Token.isSignificant) := by
    refine List.ext_getElem ?_ fun i hi _ => ?_
    · simp [toList_significant, length_cuts]
    · have hcut : i < (cuts s.tokens).length := by
        simpa [toList_significant, length_cuts] using hi
      simp [toList_significant, hiddenBefore_eq, List.getElem?_eq_getElem hcut]
  rw [interleaved, hcuts]
  exact flatten_cuts s.tokens

end Slices

/-! ## Streams of Runs -/

/-- Tokens that tile a text end with a token that parsers see. -/
theorem rtakeWhile_isHidden_of_tiling {p : Position} {cs : List Char} {tokens : List Token}
    (h : Tiling p cs tokens) : tokens.rtakeWhile Token.isHidden = [] := by
  obtain ⟨front, hfront⟩ := List.getLast?_eq_some_iff.1 h.getLast?
  rw [hfront]
  exact List.rtakeWhile_concat_neg _ _ _ nofun

/-- Hidden tokens belong to the significant token behind them: put back there they give all
tokens but those that are hidden at the end, and nothing stands in front of a token that is not
there. In the stream of a run nothing is hidden behind the end of input, which is significant,
so that this rebuilds the text. -/
theorem interleaves_hidden (tokens : List Token) (source? : Option SourceMap) :
    let s := ofTokens tokens source?
    s.significant.toList = tokens.filter Token.isSignificant ∧
    (∀ i < s.size, ∀ t ∈ s.hiddenBefore i, t.isHidden = true) ∧
    s.interleaved ++ tokens.rtakeWhile Token.isHidden = tokens ∧
    (∀ i, s.size ≤ i → s.hiddenBefore i = []) ∧
    (∀ i (h : i < s.size), s.startBefore i h ≤ s.places[i] ∧ s.places[i] < tokens.length) ∧
    ∀ maxDepth source map?,
      let run := ofTokens (Tokenizer.start maxDepth source).tokens map?
      run.tokens.rtakeWhile Token.isHidden = [] ∧
      (∃ last, run.significant.toList.getLast? = some last ∧ last.kind = .eof) ∧
      run.interleaved.flatMap (·.text.toList) = source := by
  intro s
  refine ⟨s.toList_significant, ?_, s.interleaved_append, ?_, fun i h => s.startBefore_le h, ?_⟩
  · intro i hi t ht
    have hcut : (cuts tokens)[i]? = some _ := s.getElem?_cuts hi
    rw [hiddenBefore_eq, tokens_ofTokens, hcut] at ht
    exact isHidden_of_mem_cuts tokens _ (List.mem_of_getElem? hcut) t ht
  · intro i hi
    exact dif_neg (Nat.not_lt.2 hi)
  · intro maxDepth source map? run
    have htiling : Tiling .start source run.tokens :=
      Tokenizer.tiling_tokens (.start maxDepth source) rfl
    have hnone := rtakeWhile_isHidden_of_tiling htiling
    have hall := run.interleaved_append
    rw [hnone, List.append_nil] at hall
    refine ⟨hnone, ?_, by rw [hall, htiling.flatMap_text]⟩
    obtain ⟨front, hfront⟩ := List.getLast?_eq_some_iff.1 htiling.getLast?
    rw [run.toList_significant, hfront, List.filter_append]
    exact ⟨_, List.getLast?_concat, rfl⟩

end TokenStream

end PipeQuery
