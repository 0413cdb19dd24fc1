-- SUMMARY: Plain values are written on a single line and read back, in every lawful format.
import PipeQuery.Format.Value
import PipeQuery.Proofs.Json.SingleLine

/-! # Plain Values -/

namespace PipeQuery.ValueFormat

variable {F : ValueFormat}

/-- The text of a value, or nothing where it cannot be written. -/
def printed (F : ValueFormat) (v : F.Value) : String :=
  match F.print v with
  | .ok cs => cs
  | .error _ => ""

theorem printed_of_print {v : F.Value} {cs : String} (h : F.print v = .ok cs) :
    F.printed v = cs := by
  rw [printed, h]

/-- A plain value is written, and without control characters. -/
theorem Lawful.exists_print (hF : F.Lawful) {v : F.Value} (h : F.Plain v) :
    ∃ cs, F.print v = .ok cs ∧ Json.NoControls cs.toList := by
  induction h with
  | text s => exact ⟨_, hF.print_text s, Json.noControls_quoted s⟩
  | natural hn => exact ⟨_, hF.print_natural _ hn, Json.noControls_toString _⟩
  | flag b => exact ⟨_, hF.print_flag b, by cases b <;> decide⟩
  | @object members hnames _ ih =>
    have hprinted : ∀ m ∈ members, F.print m.2 = .ok (F.printed m.2) ∧
        Json.NoControls (F.printed m.2).toList := by
      intro m hm
      obtain ⟨cs, hcs, hline⟩ := ih m hm
      rw [printed_of_print hcs]
      exact ⟨hcs, hline⟩
    obtain ⟨order, hperm, hprint⟩ :=
      hF.print_object members F.printed hnames fun m hm => (hprinted m hm).1
    refine ⟨_, hprint, Json.noControls_objectText fun m hm => ?_⟩
    obtain ⟨n, hn, rfl⟩ := List.mem_map.1 hm
    exact (hprinted n (hperm.mem_iff.1 hn)).2

end PipeQuery.ValueFormat
