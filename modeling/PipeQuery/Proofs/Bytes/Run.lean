-- SUMMARY: Runs and fixed texts in the bytes of a text: classes that treat all characters above ASCII alike never end inside a character.
import PipeQuery.Proofs.Bytes.Encoding
import PipeQuery.Proofs.Recognizer.Scan
import PipeQuery.Proofs.Text.Offsets

/-! # Runs of Encoded Texts

A scanner that is given the bytes of a text should take the bytes of the characters that it takes
of the text. Classes that list characters hold none above ASCII, and those that exclude some hold
all of them, so a run takes all bytes of a character or none. -/

namespace PipeQuery

namespace Scan

open CharClass Text

/-- Whether a scanner takes of the bytes of a text those of the characters that it takes. -/
def CountsBytes (scan : List Char → Nat) : Prop :=
  ∀ cs, scan (spread cs) = size (cs.take (scan cs))

/-- Whether a scanner takes ASCII characters only, and as many of the bytes of a text. -/
structure AsciiOnly (scan : List Char → Nat) : Prop where
  spread : ∀ cs, scan (spread cs) = scan cs
  size : ∀ cs, size (cs.take (scan cs)) = scan cs

/-! ## Beginnings -/

theorem size_take_add (cs : List Char) (n m : Nat) :
    size (cs.take (n + m)) = size (cs.take n) + size ((cs.drop n).take m) := by
  rw [List.take_add, size_append]

theorem size_take_mono {cs : List Char} {n m : Nat} (h : n ≤ m) :
    size (cs.take n) ≤ size (cs.take m) :=
  size_le_of_prefix (List.take_prefix_take_left h)

theorem size_take_max (cs : List Char) (n m : Nat) :
    size (cs.take (max n m)) = max (size (cs.take n)) (size (cs.take m)) := by
  rcases Nat.le_total n m with h | h
  · rw [Nat.max_eq_right h, Nat.max_eq_right (size_take_mono h)]
  · rw [Nat.max_eq_left h, Nat.max_eq_left (size_take_mono h)]

theorem CountsBytes.max {f g : List Char → Nat} (hf : CountsBytes f) (hg : CountsBytes g) :
    CountsBytes fun cs => max (f cs) (g cs) := by
  intro cs
  simp only [hf cs, hg cs, size_take_max]

theorem size_take_cons_succ {c : Char} (hc : ¬Wide c) (cs : List Char) (n : Nat) :
    size ((c :: cs).take (n + 1)) = size (cs.take n) + 1 := by
  rw [List.take_succ_cons, size_cons, utf8Size_of_not_wide hc, Nat.add_comm]

theorem AsciiOnly.countsBytes {scan : List Char → Nat} (h : AsciiOnly scan) : CountsBytes scan := by
  intro cs
  rw [h.spread, h.size]

/-- A scanner that takes nothing in front of a character above ASCII, and looks at what is behind
an ASCII character by scans that are the same in the bytes. -/
theorem asciiOnly_of_cons {scan : List Char → Nat} (nil : scan [] = 0)
    (wide : ∀ {c cs}, Wide c → scan (c :: cs) = 0)
    (spread : ∀ {c cs}, ¬Wide c → scan (c :: Text.spread cs) = scan (c :: cs))
    (size : ∀ {c cs}, ¬Wide c → Text.size ((c :: cs).take (scan (c :: cs))) = scan (c :: cs)) :
    AsciiOnly scan := by
  refine ⟨fun cs => ?_, fun cs => ?_⟩
  · cases cs with
    | nil => rfl
    | cons c cs =>
      by_cases hc : Wide c
      · obtain ⟨b, ws, hspread, hb, -⟩ := exists_spread_cons c cs
        rw [hspread, wide (hb.wide hc), wide hc]
      · rw [spread_cons_of_not_wide hc, spread hc]
  · cases cs with
    | nil => rw [nil, List.take_zero, size_nil]
    | cons c cs =>
      by_cases hc : Wide c
      · rw [wide hc, List.take_zero, size_nil]
      · exact size hc

theorem AsciiOnly.drop {scan : List Char → Nat} (h : AsciiOnly scan) (cs : List Char) :
    (Text.spread cs).drop (scan cs) = Text.spread (cs.drop (scan cs)) := by
  conv_lhs => rw [← h.size cs]
  rw [drop_spread]

/-- An ASCII character that comes first in the bytes comes first in the text. -/
theorem exists_of_spread_eq_cons {k : Char} (hk : ¬Wide k) {cs bs : List Char}
    (h : spread cs = k :: bs) : ∃ ds, cs = k :: ds ∧ bs = spread ds := by
  cases cs with
  | nil => exact absurd h nofun
  | cons c ds =>
    obtain ⟨b, ws, hspread, hb, -⟩ := exists_spread_cons c ds
    rw [hspread] at h
    obtain ⟨hbk, -⟩ := List.cons.inj h
    obtain rfl : c = k := (hb.eq_iff hk).1 hbk
    rw [← hspread, spread_cons_of_not_wide hk] at h
    exact ⟨ds, rfl, (List.cons.inj h).2.symm⟩

theorem head?_spread_eq_iff {k : Char} (hk : ¬Wide k) (cs : List Char) :
    (spread cs).head? = some k ↔ cs.head? = some k := by
  constructor
  · intro h
    obtain ⟨bs, hbs⟩ := List.head?_eq_some_iff.1 h
    obtain ⟨ds, rfl, -⟩ := exists_of_spread_eq_cons hk hbs
    rfl
  · intro h
    obtain ⟨ds, rfl⟩ := List.head?_eq_some_iff.1 h
    rw [spread_cons_of_not_wide hk]
    rfl

theorem spread_ne_cons {k : Char} (hk : ¬Wide k) {cs : List Char} (h : ∀ ds, cs ≠ k :: ds)
    (bs : List Char) : spread cs ≠ k :: bs := by
  intro hbs
  obtain ⟨ds, hds, -⟩ := exists_of_spread_eq_cons hk hbs
  exact h ds hds

/-- A text in ASCII begins the bytes exactly if it begins the text. -/
theorem exists_of_spread_eq_append (text : List Char) (htext : IsAscii text)
    {cs bs : List Char} (h : spread cs = text ++ bs) : ∃ ds, cs = text ++ ds ∧ bs = spread ds := by
  induction text generalizing cs with
  | nil => exact ⟨cs, rfl, h.symm⟩
  | cons k text ih =>
    obtain ⟨hk, htail⟩ := List.forall_mem_cons.1 htext
    obtain ⟨es, rfl, hes⟩ := exists_of_spread_eq_cons hk h
    obtain ⟨ds, rfl, hbs⟩ := ih htail hes.symm
    exact ⟨ds, rfl, hbs⟩

theorem spread_append_of_ascii (text : List Char) (htext : IsAscii text) (cs : List Char) :
    spread (text ++ cs) = text ++ spread cs := by
  rw [spread_append, spread_of_ascii htext]

/-- A scanner that only takes what begins with a text in ASCII. -/
theorem countsBytes_of_prefix (text : List Char) (htext : IsAscii text)
    {scan : List Char → Nat}
    (begins : ∀ ds, scan (text ++ spread ds) = size ((text ++ ds).take (scan (text ++ ds))))
    (other : ∀ cs, (∀ ds, cs ≠ text ++ ds) → scan cs = 0) : CountsBytes scan := by
  intro cs
  by_cases h : ∃ ds, cs = text ++ ds
  · obtain ⟨ds, rfl⟩ := h
    rw [spread_append_of_ascii text htext, begins]
  · have hbytes : ∀ bs, spread cs ≠ text ++ bs := by
      intro bs hbs
      obtain ⟨ds, hds, -⟩ := exists_of_spread_eq_append text htext hbs
      exact h ⟨ds, hds⟩
    rw [other _ hbytes, other _ fun ds hds => h ⟨ds, hds⟩]
    rfl

theorem isPrefixOf_spread (text : List Char) (htext : IsAscii text) (cs : List Char) :
    text.isPrefixOf (spread cs) = text.isPrefixOf cs := by
  rw [Bool.eq_iff_iff, List.isPrefixOf_iff_prefix, List.isPrefixOf_iff_prefix]
  constructor
  · rintro ⟨bs, hbs⟩
    obtain ⟨ds, rfl, -⟩ := exists_of_spread_eq_append text htext hbs.symm
    exact List.prefix_append text ds
  · rintro ⟨ds, rfl⟩
    rw [spread_append_of_ascii text htext]
    exact List.prefix_append text _

theorem size_of_ascii {text : List Char} (htext : IsAscii text) :
    size text = text.length := by
  rw [← length_spread, spread_of_ascii htext]

theorem size_take_append_of_ascii (text : List Char) (htext : IsAscii text)
    (cs : List Char) (n : Nat) :
    size ((text ++ cs).take (text.length + n)) = text.length + size (cs.take n) := by
  rw [List.take_length_add_append, size_append, size_of_ascii htext]

/-- One more ASCII character behind a beginning takes one more byte. -/
theorem size_take_mark {k : Char} (hk : ¬Wide k) {cs rest : List Char} {n : Nat}
    (hrest : cs.drop n = k :: rest) (m : Nat) :
    size (cs.take (n + 1 + m)) = size (cs.take n) + 1 + size (rest.take m) := by
  rw [Nat.add_assoc, size_take_add, hrest, Nat.add_comm 1, size_take_cons_succ hk]
  omega

theorem size_take_eq_zero_iff {cs : List Char} {n : Nat} (h : n ≤ cs.length) :
    size (cs.take n) = 0 ↔ n = 0 := by
  rw [size_eq_zero_iff, List.take_eq_nil_iff]
  refine or_iff_left_of_imp ?_
  rintro rfl
  exact Nat.le_zero.1 h

/-- A beginning that is taken as a whole or not at all. -/
theorem size_take_ite {P : Prop} [Decidable P] {cs : List Char} {n : Nat}
    (h : size (cs.take n) = n) : size (cs.take (if P then 0 else n)) = if P then 0 else n := by
  split
  · rfl
  · exact h

/-! ## Classes and Runs -/

/-- Whether a class holds ASCII characters only. -/
def Narrow (p : Char → Bool) : Prop :=
  ∀ c, Wide c → p c = false

/-- Whether a class cannot tell characters above ASCII apart. -/
def Uniform (p : Char → Bool) : Prop :=
  ∀ b c, Alike b c → p b = p c

theorem Narrow.uniform {p : Char → Bool} (h : Narrow p) : Uniform p := by
  rintro b c (rfl | ⟨hb, hc⟩)
  · rfl
  · rw [h b hb, h c hc]

theorem uniform_of_wide {p : Char → Bool} (h : ∀ {c}, Wide c → p c = true) : Uniform p := by
  rintro b c (rfl | ⟨hb, hc⟩)
  · rfl
  · rw [h hb, h hc]

theorem Uniform.not {p : Char → Bool} (h : Uniform p) : Uniform fun c => !p c := by
  intro b c hbc
  exact congrArg (!·) (h b c hbc)

theorem beq_of_wide {c k : Char} (hc : Wide c) (hk : ¬Wide k) : (c == k) = false :=
  beq_eq_false_iff_ne.2 (ne_of_wide hc hk)

theorem narrow_beq {k : Char} (hk : ¬Wide k) : Narrow (· == k) :=
  fun _ hc => beq_of_wide hc hk

theorem narrow_beq_or {k l : Char} (hk : ¬Wide k) (hl : ¬Wide l) :
    Narrow fun c => c == k || c == l :=
  fun _ hc => Bool.or_eq_false_iff.2 ⟨beq_of_wide hc hk, beq_of_wide hc hl⟩

theorem not_le_of_wide {c k : Char} (hc : Wide c) (hk : ¬Wide k) : ¬c.val ≤ k.val := by
  rw [UInt32.le_iff_toNat_le]
  exact fun h => hk (Nat.lt_of_lt_of_le hc h)

theorem narrow_isDigit : Narrow Char.isDigit := by
  intro c hc
  refine Bool.eq_false_iff.2 fun h => ?_
  exact not_le_of_wide hc (by decide) (UInt32.le_iff_toNat_le.2 (Char.isDigit_iff_toNat.1 h).2)

theorem narrow_isAlpha : Narrow Char.isAlpha := by
  intro c hc
  have hupper : c.isUpper = false :=
    decide_eq_false fun h => not_le_of_wide hc (by decide) h.2
  have hlower : c.isLower = false := by
    refine Bool.and_eq_false_imp.2 fun _ => ?_
    exact decide_eq_false (not_le_of_wide hc (by decide))
  exact Bool.or_eq_false_iff.2 ⟨hupper, hlower⟩

theorem narrow_isBlank : Narrow isBlank := by
  intro c hc
  simp (disch := decide) [isBlank, beq_of_wide hc]

theorem narrow_isLineEnd : Narrow isLineEnd := by
  intro c hc
  simp (disch := decide) [isLineEnd, beq_of_wide hc]

theorem narrow_isWord : Narrow isWord := by
  intro c hc
  simp (disch := decide) [isWord, beq_of_wide hc, narrow_isAlpha c hc, narrow_isDigit c hc]

theorem narrow_isWildcardWord : Narrow isWildcardWord := by
  intro c hc
  simp (disch := decide) [isWildcardWord, beq_of_wide hc, narrow_isWord c hc]

theorem narrow_isSetting : Narrow isSetting := by
  intro c hc
  simp (disch := decide) [isSetting, beq_of_wide hc, narrow_isAlpha c hc, narrow_isDigit c hc]

theorem narrow_isEscaped : Narrow isEscaped := by
  intro c hc
  simp (disch := decide) [isEscaped, beq_of_wide hc]

theorem isSource_of_wide {c : Char} (hc : Wide c) : isSource c = true := by
  simp (disch := decide) [isSource, isBlank, beq_of_wide hc]

theorem isCommandWord_of_wide {c : Char} (hc : Wide c) : isCommandWord c = true := by
  simp (disch := decide) [isCommandWord, isBlank, beq_of_wide hc]

theorem isPolicy_of_wide {c : Char} (hc : Wide c) : isPolicy c = true := by
  simp (disch := decide) [isPolicy, isBlank, beq_of_wide hc]

/-- A run takes all bytes of a character or none. -/
theorem countsBytes_leading {p : Char → Bool} (hp : Uniform p) : CountsBytes (leading p) := by
  intro cs
  induction cs with
  | nil => rfl
  | cons c cs ih =>
    cases h : p c with
    | false =>
      obtain ⟨b, ws, hspread, hb, -⟩ := exists_spread_cons c cs
      rw [hspread, leading_cons_of_neg ((hp b c hb).trans h), leading_cons_of_neg h]
      rfl
    | true =>
      have hall : ∀ b ∈ encoded c, p b = true := fun b hb =>
        (hp b c (alike_of_mem_encoded hb)).trans h
      rw [spread_cons, leading_append_of_all hall, leading_cons_of_pos h, List.take_succ_cons,
        size_cons, length_encoded, ih]

theorem takeWhile_spread {p : Char → Bool} (hp : Uniform p) (cs : List Char) :
    (spread cs).takeWhile p = spread (cs.takeWhile p) := by
  rw [← take_leading, countsBytes_leading hp, take_spread, take_leading]

theorem size_take_of_le_leading {p : Char → Bool} (hp : Narrow p) {cs : List Char} {n : Nat}
    (h : n ≤ leading p cs) : size (cs.take n) = n := by
  have hall : IsAscii (cs.take n) := by
    intro c hc hwide
    have hrun := forall_mem_take_leading p cs c (List.take_subset_take_left cs h hc)
    exact Bool.false_ne_true ((hp c hwide).symm.trans hrun)
  have hlen := leading_le_length p cs
  rw [size_of_ascii hall, List.length_take]
  omega

theorem asciiOnly_leading {p : Char → Bool} (hp : Narrow p) : AsciiOnly (leading p) where
  spread cs := by rw [countsBytes_leading hp.uniform, size_take_of_le_leading hp (Nat.le_refl _)]
  size _ := size_take_of_le_leading hp (Nat.le_refl _)

/-- What stands behind a measured beginning is the same in the bytes. -/
theorem CountsBytes.drop {scan : List Char → Nat} (h : CountsBytes scan) (cs : List Char) :
    (spread cs).drop (scan (spread cs)) = spread (cs.drop (scan cs)) := by
  rw [h cs, drop_spread]

theorem CountsBytes.eq_zero_iff {scan : List Char → Nat} (h : CountsBytes scan) {cs : List Char}
    (hle : scan cs ≤ cs.length) : scan (spread cs) = 0 ↔ scan cs = 0 := by
  rw [h cs, size_take_eq_zero_iff hle]

/-! ## Fixed Texts -/

section Fixed

variable {same : Char → Char → Bool} {text : List Char}

/-- A comparison that takes nothing above ASCII for a character of the text. -/
theorem asciiOnly_shared (h : ∀ k ∈ text, Narrow (same k)) : AsciiOnly (shared same text) := by
  induction text with
  | nil => exact ⟨fun cs => by simp, fun cs => by simp⟩
  | cons k text ih =>
    rw [List.forall_mem_cons] at h
    refine asciiOnly_of_cons rfl (fun {c _} hc => ?_) (fun _ => ?_) fun hc => ?_
    · rw [shared_cons_cons, h.1 c hc]
      rfl
    · rw [shared_cons_cons, shared_cons_cons, (ih h.2).spread]
    · rw [shared_cons_cons]
      split
      case isTrue => rw [size_take_cons_succ hc, (ih h.2).size]
      case isFalse => rfl

theorem asciiOnly_fixed (h : ∀ k ∈ text, Narrow (same k)) : AsciiOnly (fixed same text) where
  spread cs := by rw [fixed, fixed, (asciiOnly_shared h).spread]
  size cs := by
    rw [fixed]
    split
    case isTrue hall => rw [← hall, (asciiOnly_shared h).size]
    case isFalse => rfl

end Fixed

end Scan

end PipeQuery
