-- SUMMARY: The digits that write a number have its value and no needless zero in front, and a fixed number of digits is read off a text.
import PipeQuery.Text.Digit

/-! # Digits of Numbers -/

namespace PipeQuery.Text

theorem digitsValue_eq_ofDigitChars {base : Nat} {ds : List Char}
    (h : ∀ d ∈ ds, d.isDigit = true) : digitsValue base ds = Nat.ofDigitChars base ds 0 := by
  suffices hfold : ∀ n, ds.foldl (fun n d => n * base + digitValue d) n =
      Nat.ofDigitChars base ds n from hfold 0
  induction ds with
  | nil => exact fun _ => rfl
  | cons d ds ih =>
    intro n
    obtain ⟨hd, hds⟩ := List.forall_mem_cons.1 h
    have hvalue : n * base + digitValue d = base * n + (d.toNat - '0'.toNat) := by
      rw [digitValue, if_pos hd, Nat.mul_comm]
    rw [List.foldl_cons, ih hds, Nat.ofDigitChars_cons, hvalue]

theorem isDigit_of_mem_toDigits {n : Nat} : ∀ d ∈ Nat.toDigits 10 n, d.isDigit = true :=
  fun _ hd => Nat.isDigit_of_mem_toDigits (by decide) (by decide) hd

/-- Decimal digits have the value of the number that they write. -/
theorem digitsValue_toDigits (n : Nat) : digitsValue 10 (Nat.toDigits 10 n) = n := by
  rw [digitsValue_eq_ofDigitChars isDigit_of_mem_toDigits, Nat.ofDigitChars_ten_toDigits]

/-- No number but zero begins with the digit zero. -/
theorem head?_toDigits_ne {n : Nat} (h : 0 < n) : (Nat.toDigits 10 n).head? ≠ some '0' := by
  induction n using Nat.strongRecOn with
  | ind n ih =>
    rcases Nat.lt_or_ge n 10 with hsmall | hlarge
    · rw [Nat.toDigits_of_lt_base hsmall, List.head?_cons, ne_eq, Option.some.injEq,
        Nat.digitChar_eq_zero]
      omega
    · obtain ⟨d, ds, hds⟩ := List.exists_cons_of_ne_nil (Nat.toDigits_ne_nil (b := 10) (n := n / 10))
      have hhead : (Nat.toDigits 10 n).head? = (Nat.toDigits 10 (n / 10)).head? := by
        rw [Nat.toDigits_of_base_le (by decide) hlarge, hds]
        rfl
      rw [hhead]
      exact ih (n / 10) (by omega) (by omega)

theorem fixedDigits?_append {base width : Nat} {ds : List Char} (hwidth : ds.length = width)
    (hdigits : ds.all (isDigitIn base) = true) (cs : List Char) :
    fixedDigits? base width (ds ++ cs) = some (digitsValue base ds, cs) := by
  subst hwidth
  simpa [fixedDigits?] using hdigits

end PipeQuery.Text
