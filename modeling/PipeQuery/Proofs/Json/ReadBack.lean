-- SUMMARY: A JSON value whose numbers are whole is what its compact text is parsed to.
import PipeQuery.Json.Printer
import PipeQuery.Json.Reader
import PipeQuery.Proofs.Text.Digit

/-! # Reading Back

Each reader takes from a text what the printer wrote at its beginning, and leaves the rest.
Of the rest it matters only that it does not go on with a number. -/

namespace PipeQuery.Json

/-! ## Strings -/

section Strings

theorem piece?_plain {c : Char} (hquote : c ≠ '"') (hescape : c ≠ '\\') (hcontrol : ¬c.toNat < 32)
    (cs : List Char) : piece? (c :: cs) = some (.char c 1) := by
  have hplain : ¬(c.toNat < 32 ∨ c = '\\') := not_or.2 ⟨hcontrol, hescape⟩
  unfold piece?
  split
  case h_1 heq => exact absurd (List.cons.inj heq).1 hquote
  case h_2 heq => exact absurd (List.cons.inj heq).1 hescape
  case h_3 heq => exact absurd (List.cons.inj heq).1 hescape
  case h_4 heq => rw [← (List.cons.inj heq).1, if_neg hplain]
  case h_5 heq => exact absurd heq nofun

/-- A short escape is read as the character that has it. -/
theorem piece?_short {c k : Char} (h : (c, k) ∈ shortEscapes) (cs : List Char) :
    piece? ('\\' :: k :: cs) = some (.char c 2) := by
  have hread : ∀ m ∈ shortEscapes, m.2 ≠ 'u' ∧ shortEscape? m.2 = some m.1 := by
    decide
  obtain ⟨hletter, hshort⟩ := hread _ h
  rw [piece?]
  · rw [hshort]
    rfl
  · exact hletter

/-- The digits that a control character is written with. -/
theorem digits_control : ∀ n < 32,
    ['0', '0', hexDigit (n / 16), hexDigit (n % 16)].all (Text.isDigitIn 16) = true ∧
      Text.digitsValue 16 ['0', '0', hexDigit (n / 16), hexDigit (n % 16)] = n := by
  decide

theorem piece?_control {c : Char} (h : c.toNat < 32) (cs : List Char) :
    piece? ('\\' :: 'u' :: '0' :: '0' :: hexDigit (c.toNat / 16) :: hexDigit (c.toNat % 16) :: cs) =
      some (.char c 6) := by
  obtain ⟨hdigits, hvalue⟩ := digits_control c.toNat h
  have hread : Text.fixedDigits? 16 4
      ('0' :: '0' :: hexDigit (c.toNat / 16) :: hexDigit (c.toNat % 16) :: cs) =
        some (c.toNat, cs) :=
    (Text.fixedDigits?_append rfl hdigits cs).trans (by rw [hvalue])
  have hhigh : isHighHalf c.toNat = false := by
    simp [isHighHalf]
    omega
  have hlow : isLowHalf c.toNat = false := by
    simp [isLowHalf]
    omega
  simp [piece?, hread, hhigh, hlow]

/-- A written character is read as one piece, as long as it was written. -/
theorem piece?_escape (c : Char) (cs : List Char) :
    piece? (escape c ++ cs) = some (.char c (escape c).length) := by
  rcases escape_cases c with ⟨k, hk, hescape⟩ | ⟨hcontrol, hescape⟩ |
    ⟨hquote, hbackslash, hcontrol, hescape⟩
  · rw [hescape]
    exact piece?_short hk cs
  · rw [hescape]
    exact piece?_control hcontrol cs
  · rw [hescape]
    exact piece?_plain hquote hbackslash hcontrol cs

theorem escape_ne_nil (c : Char) : escape c ≠ [] := by
  rcases escape_cases c with ⟨k, -, hescape⟩ | ⟨-, hescape⟩ | ⟨-, -, -, hescape⟩ <;>
    rw [hescape] <;> exact List.cons_ne_nil _ _

/-- Behind a piece the walk goes on. -/
theorem stringFrom_pending (done : Option (List Char)) (p cs : List Char) :
    stringFrom done p.length (p ++ cs) = stringFrom done 0 cs := by
  induction p with
  | nil => rfl
  | cons c p ih => rw [List.length_cons, List.cons_append, stringFrom, ih]

theorem stringFrom_escape (done : Option (List Char)) (c : Char) (cs : List Char) :
    stringFrom done 0 (escape c ++ cs) = stringFrom (done.map (c :: ·)) 0 cs := by
  obtain ⟨d, ds, hds⟩ := List.exists_cons_of_ne_nil (escape_ne_nil c)
  have hpiece := piece?_escape c cs
  rw [hds, List.cons_append] at hpiece ⊢
  rw [stringFrom, hpiece]
  exact stringFrom_pending _ ds cs

theorem stringFrom_escapeText (done cs rest : List Char) :
    stringFrom (some done) 0 (cs.flatMap escape ++ '"' :: rest) =
      some (some (String.ofList (done.reverse ++ cs)), rest) := by
  induction cs generalizing done with
  | nil => simp [stringFrom, piece?]
  | cons c cs ih =>
    rw [List.flatMap_cons, List.append_assoc, stringFrom_escape, Option.map_some, ih]
    simp

/-- A string is read back, half a character included. -/
theorem string?_printText (t : Text) (rest : List Char) :
    string? (printText t ++ rest) = some (t, rest) := by
  cases t with
  | none => rfl
  | some s =>
    have h := stringFrom_escapeText [] s.toList rest
    rw [List.reverse_nil, List.nil_append, String.ofList_toList] at h
    rw [printText_some, List.cons_append, List.append_assoc, string?]
    exact h

end Strings

/-! ## Numbers -/

section Numbers

/-- Whether a text does not go on with a number that ends before it. -/
def EndsNumber (rest : List Char) : Prop :=
  ∀ c ∈ rest.head?, c.isDigit = false ∧ c ≠ '.' ∧ c ≠ 'e' ∧ c ≠ 'E'

variable {rest : List Char}

theorem digits?_append {ds : List Char} (hne : ds ≠ []) (hdigits : ∀ d ∈ ds, d.isDigit = true)
    (hrest : EndsNumber rest) : digits? (ds ++ rest) = some (ds, rest) := by
  have hstop : rest.takeWhile Char.isDigit = [] ∧ rest.dropWhile Char.isDigit = rest := by
    cases rest with
    | nil => exact ⟨rfl, rfl⟩
    | cons c rest => simp [(hrest c rfl).1]
  rw [digits?, List.takeWhile_append_of_pos hdigits, List.dropWhile_append_of_pos hdigits, hstop.1,
    hstop.2, List.append_nil]
  cases ds with
  | nil => exact absurd rfl hne
  | cons d ds => rfl

theorem whole?_toDigits (n : Nat) (hrest : EndsNumber rest) :
    whole? (Nat.toDigits 10 n ++ rest) = some (Nat.toDigits 10 n, rest) := by
  rcases Nat.eq_zero_or_pos n with rfl | hpos
  · rw [Nat.toDigits_zero]
    rfl
  · have hread := digits?_append Nat.toDigits_ne_nil (Text.isDigit_of_mem_toDigits (n := n)) hrest
    rw [whole?]
    · exact hread
    · intro cs hcs
      obtain ⟨d, ds, hds⟩ := List.exists_cons_of_ne_nil (Nat.toDigits_ne_nil (b := 10) (n := n))
      rw [hds, List.cons_append] at hcs
      refine Text.head?_toDigits_ne hpos ?_
      rw [hds, (List.cons.inj hcs).1]
      rfl

theorem fraction?_of_endsNumber (hrest : EndsNumber rest) : fraction? rest = some ([], rest) := by
  rw [fraction?]
  rintro cs rfl
  exact (hrest '.' rfl).2.1 rfl

theorem exponent?_of_endsNumber (hrest : EndsNumber rest) : exponent? rest = some ([], rest) := by
  cases rest with
  | nil => rfl
  | cons c rest =>
    obtain ⟨-, -, hlower, hupper⟩ := hrest c rfl
    simp [exponent?, hlower, hupper]

/-- A number without sign begins with a digit. -/
theorem exists_cons_toDigits (n : Nat) (rest : List Char) :
    ∃ d ds, Nat.toDigits 10 n ++ rest = d :: ds ∧ d.isDigit = true := by
  obtain ⟨d, ds, hds⟩ := List.exists_cons_of_ne_nil (Nat.toDigits_ne_nil (b := 10) (n := n))
  refine ⟨d, ds ++ rest, by rw [hds]; rfl, ?_⟩
  exact Text.isDigit_of_mem_toDigits d (by rw [hds]; exact List.mem_cons_self)

/-- A whole number is read back. -/
theorem number?_print {n : Number} (h : n.tail = []) (hrest : EndsNumber rest) :
    number? (n.print ++ rest) = some (n, rest) := by
  obtain ⟨negative, whole, tail⟩ := n
  obtain rfl : tail = [] := h
  have hwhole := whole?_toDigits whole hrest
  have hfraction := fraction?_of_endsNumber hrest
  have hexponent := exponent?_of_endsNumber hrest
  have hvalue := Text.digitsValue_toDigits whole
  cases negative with
  | true => simp [Number.print, number?, hwhole, hfraction, hexponent, hvalue]
  | false =>
    -- A number without sign begins with a digit, which is no sign.
    obtain ⟨d, ds, hds, hdigit⟩ := exists_cons_toDigits whole rest
    have hsign : d ≠ '-' := by
      rintro rfl
      exact absurd hdigit (by decide)
    have hprint : Number.print ⟨false, whole, []⟩ ++ rest = d :: ds := by
      rw [← hds, Number.print]
      simp
    rw [hds] at hwhole
    rw [hprint]
    simp [number?, hsign, hwhole, hfraction, hexponent, hvalue]

end Numbers

/-! ## Values -/

section Values

/-- Whether all numbers in a value are whole. -/
inductive Whole : Json → Prop where
  | null : Whole .null
  | bool (value : Bool) : Whole (.bool value)
  | number {n : Number} (h : n.tail = []) : Whole (.number n)
  | string (t : Text) : Whole (.string t)
  | array {items : List Json} (h : ∀ v ∈ items, Whole v) : Whole (.array items)
  | object {members : List (Text × Json)} (h : ∀ m ∈ members, Whole m.2) : Whole (.object members)

theorem whole_text (s : String) : Whole (text s) := .string _

theorem whole_natural (n : Nat) : Whole (natural n) := .number rfl

theorem whole_record {members : List (String × Json)} (h : ∀ m ∈ members, Whole m.2) :
    Whole (record members) := by
  refine .object ?_
  intro m hm
  obtain ⟨m, hmem, rfl⟩ := List.mem_map.1 hm
  exact h m hmem

/-- Whether a value is read back, with enough fuel, wherever its text stands. -/
def ReadsBack (v : Json) : Prop :=
  ∀ fuel rest, (print v).length ≤ fuel → EndsNumber rest →
    value? fuel (print v ++ rest) = some (v, rest)

theorem skipBlanks_of_not_blank {c : Char} (h : isBlank c = false) (cs : List Char) :
    skipBlanks (c :: cs) = c :: cs := by
  simp [skipBlanks, h]

/-- Whether a character is one that numbers begin with. -/
def BeginsNumber (c : Char) : Prop :=
  c.isDigit = true ∨ c = '-'

theorem BeginsNumber.ne {c k : Char} (h : BeginsNumber c)
    (hk : (k.isDigit || k == '-') = false) : c ≠ k := by
  rintro rfl
  rcases h with hdigit | rfl
  · simp [hdigit] at hk
  · exact absurd hk (by decide)

theorem BeginsNumber.not_blank {c : Char} (h : BeginsNumber c) : isBlank c = false := by
  have hspace : c ≠ ' ' := h.ne rfl
  have hfeed : c ≠ '\n' := h.ne rfl
  have htab : c ≠ '\t' := h.ne rfl
  have hreturn : c ≠ '\r' := h.ne rfl
  simp [isBlank, hspace, hfeed, htab, hreturn]

theorem exists_cons_number (n : Number) :
    ∃ c cs, n.print = c :: cs ∧ BeginsNumber c := by
  obtain ⟨negative, whole, tail⟩ := n
  obtain ⟨d, ds, hds, hdigit⟩ := exists_cons_toDigits whole tail
  cases negative with
  | true => exact ⟨'-', Nat.toDigits 10 whole ++ tail, rfl, .inr rfl⟩
  | false => exact ⟨d, ds, hds, .inl hdigit⟩

/-- A value begins with no blank, and not as an array ends. -/
theorem exists_cons_print (v : Json) :
    ∃ c cs, print v = c :: cs ∧ isBlank c = false ∧ c ≠ ']' := by
  cases v with
  | null => exact ⟨_, _, print_null, by decide⟩
  | bool value => cases value <;> exact ⟨_, _, rfl, by decide⟩
  | string t => exact ⟨_, _, print_string t, by decide⟩
  | array items => exact ⟨_, _, print_array items, by decide⟩
  | object members => exact ⟨_, _, print_object members, by decide⟩
  | number n =>
    obtain ⟨c, cs, hcs, hc⟩ := exists_cons_number n
    exact ⟨c, cs, (print_number n).trans hcs, hc.not_blank, hc.ne rfl⟩

/-- A written text has a character at least, so there is fuel to read it. -/
theorem exists_fuel {v : Json} {fuel : Nat} (h : (print v).length ≤ fuel) : ∃ k, fuel = k + 1 := by
  obtain ⟨c, cs, hcs, -, -⟩ := exists_cons_print v
  rw [hcs, List.length_cons] at h
  exact Nat.exists_eq_add_of_le' (Nat.le_trans (Nat.le_add_left 1 _) h)

/-- What begins as a number is read as one. -/
theorem value?_of_beginsNumber {c : Char} (h : BeginsNumber c) (fuel : Nat) (cs : List Char) :
    value? (fuel + 1) (c :: cs) =
      (number? (c :: cs)).bind fun (n, rest) => some (.number n, rest) := by
  rw [value?, skipBlanks_of_not_blank h.not_blank]
  split
  case h_1 heq | h_2 heq | h_3 heq | h_4 heq | h_5 heq | h_6 heq =>
    exact absurd (List.cons.inj heq).1 (h.ne rfl)
  case h_7 => rfl

theorem readsBack_number {n : Number} (h : n.tail = []) : ReadsBack (.number n) := by
  intro fuel rest hfuel hrest
  obtain ⟨c, cs, hcs, hc⟩ := exists_cons_number n
  obtain ⟨fuel, rfl⟩ := exists_fuel hfuel
  have hread := number?_print h hrest
  rw [print_number, hcs, List.cons_append]
  rw [hcs, List.cons_append] at hread
  rw [value?_of_beginsNumber hc, hread]
  rfl

theorem endsNumber_mark {c : Char} (h : c ∈ [',', ']', '\x7d']) (rest : List Char) :
    EndsNumber (c :: rest) := by
  intro d hd
  obtain rfl : c = d := Option.some.inj hd
  simp only [List.mem_cons, List.not_mem_nil, or_false] at h
  rcases h with rfl | rfl | rfl <;> decide

/-- The items of an array are read back, each with less fuel than the one before it. -/
theorem items?_printItems {items : List Json} (h : ∀ v ∈ items, ReadsBack v) (hne : items ≠ [])
    (fuel : Nat) (done : List Json) (rest : List Char) (hfuel : (printItems items).length < fuel) :
    items? fuel done (printItems items ++ ']' :: rest) =
      some (.array (done.reverse ++ items), rest) := by
  induction items generalizing fuel done with
  | nil => exact absurd rfl hne
  | cons v vs ih =>
    obtain ⟨hv, hvs⟩ := List.forall_mem_cons.1 h
    obtain ⟨fuel, rfl⟩ : ∃ k, fuel = k + 1 := ⟨fuel - 1, by omega⟩
    -- A comma follows every item but the last.
    cases vs with
    | nil =>
      rw [printItems] at hfuel ⊢
      have hread := hv fuel (']' :: rest) (by omega) (endsNumber_mark (by decide) rest)
      simp only [items?, hread, skipBlanks_of_not_blank (c := ']') rfl]
      simp
    | cons w vs =>
      rw [printItems, List.length_append, List.length_cons] at hfuel
      have hread := hv fuel (',' :: (printItems (w :: vs) ++ ']' :: rest)) (by omega)
        (endsNumber_mark (by decide) _)
      have hrest := ih hvs (List.cons_ne_nil _ _) fuel (v :: done) (by omega)
      rw [printItems, List.append_assoc, List.cons_append]
      simp only [items?, hread, skipBlanks_of_not_blank (c := ',') rfl, hrest]
      simp

theorem members?_printMembers {members : List (Text × Json)} (h : ∀ m ∈ members, ReadsBack m.2)
    (hne : members ≠ []) (fuel : Nat) (done : List (Text × Json)) (rest : List Char)
    (hfuel : (printMembers members).length < fuel) :
    members? fuel done (printMembers members ++ '\x7d' :: rest) =
      some (.object (done.reverse ++ members), rest) := by
  have hkey : ∀ (k : Text) (cs : List Char), skipBlanks (printText k ++ cs) = printText k ++ cs :=
    fun _ _ => rfl
  induction members generalizing fuel done with
  | nil => exact absurd rfl hne
  | cons m ms ih =>
    obtain ⟨k, v⟩ := m
    obtain ⟨hv, hms⟩ := List.forall_mem_cons.1 h
    obtain ⟨fuel, rfl⟩ : ∃ k, fuel = k + 1 := ⟨fuel - 1, by omega⟩
    -- As for items, with a name and a colon in front of each value.
    cases ms with
    | nil =>
      rw [printMembers, List.length_append, List.length_cons] at hfuel
      have hread := hv fuel ('\x7d' :: rest) (by simp only; omega) (endsNumber_mark (by decide) rest)
      rw [printMembers, List.append_assoc, List.cons_append]
      simp only [members?, hkey, string?_printText, skipBlanks_of_not_blank (c := ':') rfl, hread,
        skipBlanks_of_not_blank (c := '\x7d') rfl]
      simp
    | cons n ns =>
      rw [printMembers, List.length_append, List.length_cons, List.length_append,
        List.length_cons] at hfuel
      have hread := hv fuel (',' :: (printMembers (n :: ns) ++ '\x7d' :: rest)) (by simp only; omega)
        (endsNumber_mark (by decide) _)
      have hrest := ih hms (List.cons_ne_nil _ _) fuel ((k, v) :: done) (by omega)
      rw [printMembers, List.append_assoc, List.cons_append, List.append_assoc, List.cons_append]
      simp only [members?, hkey, string?_printText, skipBlanks_of_not_blank (c := ':') rfl, hread,
        skipBlanks_of_not_blank (c := ',') rfl, hrest]
      simp

/-- Items begin as the first one does. -/
theorem exists_cons_printItems (v : Json) (vs : List Json) :
    ∃ c cs, printItems (v :: vs) = c :: cs ∧ isBlank c = false ∧ c ≠ ']' := by
  obtain ⟨c, cs, hcs, hblank, hmark⟩ := exists_cons_print v
  cases vs with
  | nil => exact ⟨c, cs, by rw [printItems, hcs], hblank, hmark⟩
  | cons w vs =>
    exact ⟨c, cs ++ ',' :: printItems (w :: vs), by rw [printItems, hcs]; rfl, hblank, hmark⟩

/-- Members begin with the quote of the first name. -/
theorem exists_cons_printMembers (m : Text × Json) (ms : List (Text × Json)) :
    ∃ cs, printMembers (m :: ms) = '"' :: cs := by
  obtain ⟨k, v⟩ := m
  cases ms with
  | nil => exact ⟨_, by rw [printMembers, printText]; rfl⟩
  | cons n ns => exact ⟨_, by rw [printMembers, printText]; rfl⟩

/-- Behind its opening mark an array is read item by item, unless it ends at once. -/
theorem readsBack_array {items : List Json} (h : ∀ v ∈ items, ReadsBack v) :
    ReadsBack (.array items) := by
  intro fuel rest hfuel hrest
  rw [print_array, List.length_cons, List.length_append, List.length_singleton] at hfuel
  obtain ⟨fuel, rfl⟩ : ∃ k, fuel = k + 1 := ⟨fuel - 1, by omega⟩
  rw [print_array, List.cons_append, List.append_assoc, List.singleton_append, value?,
    skipBlanks_of_not_blank rfl]
  cases items with
  | nil => rfl
  | cons v vs =>
    obtain ⟨c, cs, hcs, hblank, hmark⟩ := exists_cons_printItems v vs
    have hread := items?_printItems h (List.cons_ne_nil _ _) fuel [] rest (by omega)
    rw [hcs, List.cons_append] at hread ⊢
    simp [skipBlanks_of_not_blank hblank, hmark, hread]

theorem readsBack_object {members : List (Text × Json)} (h : ∀ m ∈ members, ReadsBack m.2) :
    ReadsBack (.object members) := by
  intro fuel rest hfuel hrest
  rw [print_object, List.length_cons, List.length_append, List.length_singleton] at hfuel
  obtain ⟨fuel, rfl⟩ : ∃ k, fuel = k + 1 := ⟨fuel - 1, by omega⟩
  rw [print_object, List.cons_append, List.append_assoc, List.singleton_append, value?,
    skipBlanks_of_not_blank rfl]
  cases members with
  | nil => rfl
  | cons m ms =>
    obtain ⟨cs, hcs⟩ := exists_cons_printMembers m ms
    have hread := members?_printMembers h (List.cons_ne_nil _ _) fuel [] rest (by omega)
    rw [hcs, List.cons_append] at hread ⊢
    simp [skipBlanks_of_not_blank (c := '"') rfl, hread]

/-- A value of whole numbers is read back wherever it stands. -/
theorem readsBack_of_whole {v : Json} (h : Whole v) : ReadsBack v := by
  induction h with
  | null =>
    intro fuel rest hfuel _
    obtain ⟨fuel, rfl⟩ := exists_fuel hfuel
    rfl
  | bool value =>
    intro fuel rest hfuel _
    obtain ⟨fuel, rfl⟩ := exists_fuel hfuel
    cases value <;> rfl
  | number hn => exact readsBack_number hn
  | string t =>
    intro fuel rest hfuel _
    obtain ⟨fuel, rfl⟩ := exists_fuel hfuel
    have hread := string?_printText t rest
    rw [print_string]
    rw [printText, List.cons_append] at hread ⊢
    rw [value?, skipBlanks_of_not_blank rfl]
    simp only [hread]
    rfl
  | array _ ih => exact readsBack_array ih
  | object _ ih => exact readsBack_object ih

/-- A value of whole numbers is what its text is parsed to. -/
theorem parse?_print {v : Json} (h : Whole v) : parse? (print v) = some v := by
  have hread := readsBack_of_whole h (2 * (print v).length + 2) [] (by omega) nofun
  rw [List.append_nil] at hread
  rw [parse?, hread]
  rfl

end Values

end PipeQuery.Json
