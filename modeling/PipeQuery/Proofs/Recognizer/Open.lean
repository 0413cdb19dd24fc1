-- SUMMARY: The open length of a text that a recognizer refuses is the longest beginning that could still be completed.
import PipeQuery.Proofs.Recognizer.OpenName
import PipeQuery.Proofs.Recognizer.OpenNumber
import PipeQuery.Proofs.Recognizer.OpenString

/-! # Open Lengths

For each recognizer, what it leaves open of a text is what it could still accept. -/

namespace PipeQuery

namespace Recognizer

/-- A recognizer that accepts some text: the fixed ones must not be empty. -/
def Proper (r : Recognizer) : Prop :=
  r ≠ .literal [] ∧ r ≠ .keyword []

instance (r : Recognizer) : Decidable r.Proper :=
  inferInstanceAs (Decidable (_ ∧ _))

/-- Where a recognizer accepts nothing, its open length is that of the longest
beginning that it could still accept. -/
theorem measures {r : Recognizer} (h : r.Proper) : Scan.Measures r.matchLength r.openLength := by
  cases r with
  | literal text =>
    refine Scan.measures_fixed beq_self_eq_true ?_
    rintro rfl
    exact h.1 rfl
  | keyword word =>
    refine Scan.measures_fixed (fun c => beq_self_eq_true c.toLower) ?_
    rintro rfl
    exact h.2 rfl
  | lineComment => exact Scan.measures_lineComment
  | blockComment => exact Scan.measures_blockComment
  | whitespace => exact Scan.measures_leading (c := ' ') rfl
  | unknownCommand => exact Scan.measures_leading (c := 'a') rfl
  | unquotedSource => exact Scan.measures_unquotedSource
  | quotedString => exact Scan.measures_quotedString
  | integer => exact Scan.measures_leading (c := '1') rfl
  | decimal => exact Scan.measures_decimal
  | parameter => exact Scan.measures_parameter
  | unquotedIdentifier => exact Scan.measures_word (c := 'a') rfl rfl
  | quotedIdentifier => exact Scan.measures_quotedIdentifier
  | idPattern => exact Scan.measures_idPattern
  | policyName => exact Scan.measures_policyName
  | setting => exact Scan.measures_leading (c := 'a') rfl

end Recognizer

end PipeQuery
