-- SUMMARY: Texts that differ only in the case of ASCII letters, and functions of a character that cannot tell them apart.
import PipeQuery.Position
import PipeQuery.Recognizer.Basic

/-! # Letter Case

Two texts differ only in the case of their letters if they agree in lower case. What is
blind to case is therefore what lower case leaves as it is. For a character it is enough
to look at the capitals, since lower case moves no other one. -/

namespace PipeQuery

/-! ## Characters -/

/-- The letters that lower case moves. -/
def capitals : List Char := "ABCDEFGHIJKLMNOPQRSTUVWXYZ".toList

theorem toLower_eq_or_mem_capitals (c : Char) : c.toLower = c ∨ c ∈ capitals := by
  by_cases h : c.val ≥ 'A'.val ∧ c.val ≤ 'Z'.val
  · right
    have hrange : c.toNat ∈ List.range' 65 26 := by
      simp only [List.mem_range'_1]
      exact ⟨h.1, Nat.lt_succ_of_le h.2⟩
    have hall : ∀ n ∈ List.range' 65 26, Char.ofNat n ∈ capitals := by decide
    simpa using hall _ hrange
  · exact .inl (dif_neg h)

/-- Whether a function of a character is blind to its case. -/
def CaseBlind {α : Type} (f : Char → α) : Prop :=
  ∀ c : Char, f c.toLower = f c

theorem caseBlind_of_capitals {α : Type} {f : Char → α}
    (h : capitals.map (fun c => f c.toLower) = capitals.map f) : CaseBlind f := by
  intro c
  rcases toLower_eq_or_mem_capitals c with hsame | hcapital
  · rw [hsame]
  · exact List.map_inj_left.1 h c hcapital

theorem toLower_toLower (c : Char) : c.toLower.toLower = c.toLower :=
  caseBlind_of_capitals (f := Char.toLower) (by decide) c

/-- Lower case neither moves a character that is no letter nor leads to one. -/
theorem toLower_eq_iff {c k : Char} (hk : k.isAlpha = false) : c.toLower = k ↔ c = k := by
  rcases toLower_eq_or_mem_capitals c with hsame | hcapital
  · rw [hsame]
  · have hletters : (capitals.all fun c => c.isAlpha && c.toLower.isAlpha) = true := by decide
    obtain ⟨hc, hlower⟩ := Bool.and_eq_true_iff.1 (List.all_eq_true.1 hletters c hcapital)
    refine iff_of_false ?_ ?_
    · rintro rfl
      simp [hlower] at hk
    · rintro rfl
      simp [hc] at hk

theorem toLower_ne {c k : Char} (hk : k.isAlpha = false) (h : c ≠ k) : c.toLower ≠ k :=
  mt (toLower_eq_iff hk).1 h

/-! ## Classes -/

theorem caseBlind_beq {k : Char} (hk : k.isAlpha = false) : CaseBlind (· == k) := by
  intro c
  rw [Bool.eq_iff_iff, beq_iff_eq, beq_iff_eq, toLower_eq_iff hk]

theorem caseBlind_beq_left {k : Char} (hk : k.isAlpha = false) : CaseBlind (k == ·) := by
  intro c
  have h : (c.toLower == k) = (c == k) := caseBlind_beq hk c
  show (k == c.toLower) = (k == c)
  rw [BEq.comm, h, BEq.comm]

theorem CaseBlind.not {p : Char → Bool} (h : CaseBlind p) : CaseBlind fun c => !p c := by
  intro c
  simp [h c]

theorem caseBlind_isLineEnd : CaseBlind CharClass.isLineEnd :=
  caseBlind_of_capitals (by decide)

theorem caseBlind_utf8Size : CaseBlind Char.utf8Size :=
  caseBlind_of_capitals (by decide)

/-! ## Texts -/

namespace Text

/-- A text in lower case. -/
def lower (cs : List Char) : List Char :=
  cs.map Char.toLower

@[simp] theorem lower_nil : lower [] = [] := rfl

@[simp] theorem lower_cons (c : Char) (cs : List Char) :
    lower (c :: cs) = c.toLower :: lower cs := rfl

@[simp] theorem length_lower (cs : List Char) : (lower cs).length = cs.length :=
  List.length_map _

@[simp] theorem lower_append (cs ds : List Char) : lower (cs ++ ds) = lower cs ++ lower ds :=
  List.map_append

theorem lower_take (n : Nat) (cs : List Char) : (lower cs).take n = lower (cs.take n) :=
  List.map_take.symm

theorem lower_drop (n : Nat) (cs : List Char) : (lower cs).drop n = lower (cs.drop n) :=
  List.map_drop.symm

@[simp] theorem lower_lower (cs : List Char) : lower (lower cs) = lower cs := by
  rw [lower, lower, List.map_map]
  exact List.map_congr_left fun c _ => toLower_toLower c

@[simp] theorem lower_eq_nil_iff {cs : List Char} : lower cs = [] ↔ cs = [] :=
  List.map_eq_nil_iff

theorem lower_takeWhile {p : Char → Bool} (hp : CaseBlind p) (cs : List Char) :
    (lower cs).takeWhile p = lower (cs.takeWhile p) := by
  induction cs with
  | nil => rfl
  | cons c cs ih => cases h : p c <;> simp [hp c, h, ih]

theorem head?_lower_eq_iff {k : Char} (hk : k.isAlpha = false) (cs : List Char) :
    (lower cs).head? = some k ↔ cs.head? = some k := by
  cases cs <;> simp [toLower_eq_iff hk]

theorem isPrefixOf_lower {ks : List Char} (hks : ks.all (!·.isAlpha) = true) (cs : List Char) :
    ks.isPrefixOf (lower cs) = ks.isPrefixOf cs := by
  induction ks generalizing cs with
  | nil => simp
  | cons k ks ih =>
    rw [List.all_cons, Bool.and_eq_true, Bool.not_eq_true'] at hks
    obtain ⟨hk, hks⟩ := hks
    cases cs with
    | nil => rfl
    | cons c cs =>
      have hfirst : (k == c.toLower) = (k == c) := caseBlind_beq_left hk c
      rw [lower_cons, List.isPrefixOf, List.isPrefixOf, hfirst, ih hks]

/-- A text begins in lower case with a character that is no letter exactly if it begins
with it. -/
theorem lower_eq_cons_iff {k : Char} (hk : k.isAlpha = false) {cs ds : List Char} :
    lower cs = k :: ds ↔ ∃ es, cs = k :: es ∧ lower es = ds := by
  cases cs with
  | nil => simp
  | cons c cs =>
    rw [lower_cons, List.cons.injEq, toLower_eq_iff hk]
    constructor
    · rintro ⟨rfl, hds⟩
      exact ⟨cs, rfl, hds⟩
    · rintro ⟨es, hes, hds⟩
      cases hes
      exact ⟨rfl, hds⟩

/-- The same for several characters that are no letters. -/
theorem eq_append_of_lower_eq (ks : List Char) {cs ds : List Char}
    (hks : ks.all (!·.isAlpha) = true) (h : lower cs = ks ++ ds) :
    ∃ es, cs = ks ++ es ∧ lower es = ds := by
  induction ks generalizing cs with
  | nil => exact ⟨cs, rfl, h⟩
  | cons k ks ih =>
    rw [List.all_cons, Bool.and_eq_true, Bool.not_eq_true'] at hks
    obtain ⟨hk, hks⟩ := hks
    obtain ⟨es, rfl, hes⟩ := (lower_eq_cons_iff hk).1 h
    obtain ⟨fs, rfl, hfs⟩ := ih hks hes
    exact ⟨fs, rfl, hfs⟩

end Text

/-- Case takes no room and ends no line. -/
theorem Position.advanceOver_lower (p : Position) (cs : List Char) :
    p.advanceOver (Text.lower cs) = p.advanceOver cs := by
  induction cs generalizing p with
  | nil => rfl
  | cons c cs ih =>
    have hone : p.advance c.toLower = p.advance c := by
      simp [advance, toLower_eq_iff (k := '\n') rfl, caseBlind_utf8Size c]
    rw [Text.lower_cons, advanceOver_cons, advanceOver_cons, hone, ih]

end PipeQuery
