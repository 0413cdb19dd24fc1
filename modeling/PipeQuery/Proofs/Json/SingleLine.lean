-- SUMMARY: The compact text of strings and objects has no control characters, whatever stands in the strings.
import PipeQuery.Json.Compact
import PipeQuery.Proofs.Text.Digit

/-! # Single Lines

Control characters stand in strings only as escapes, and nothing else that is written has
any. -/

namespace PipeQuery.Json

/-- Whether a text has no control characters, line feeds among them. -/
def NoControls (cs : List Char) : Prop := ∀ c ∈ cs, 32 ≤ c.toNat

instance (cs : List Char) : Decidable (NoControls cs) :=
  decidable_of_iff (cs.all fun c => 32 ≤ c.toNat) (by simp [NoControls])

section NoControls

variable {c : Char} {cs ds : List Char}

@[simp] theorem noControls_nil : NoControls [] := nofun

@[simp] theorem noControls_cons : NoControls (c :: cs) ↔ 32 ≤ c.toNat ∧ NoControls cs :=
  List.forall_mem_cons

@[simp] theorem noControls_append : NoControls (cs ++ ds) ↔ NoControls cs ∧ NoControls ds :=
  List.forall_mem_append

/-- Text without control characters is a single line. -/
theorem NoControls.feed_notMem (h : NoControls cs) : '\n' ∉ cs := fun hmem =>
  absurd (h _ hmem) (by decide)

theorem noControls_intercalate {parts : List (List Char)} (hcs : NoControls cs)
    (h : ∀ p ∈ parts, NoControls p) : NoControls (cs.intercalate parts) := by
  induction parts with
  | nil => exact noControls_nil
  | cons p ps ih =>
    obtain ⟨hp, hps⟩ := List.forall_mem_cons.1 h
    cases ps with
    | nil => rwa [List.intercalate_singleton]
    | cons q qs =>
      rw [List.intercalate_cons_cons, noControls_append, noControls_append]
      exact ⟨⟨hp, hcs⟩, ih hps⟩

end NoControls

/-! ## Strings and Numbers -/

theorem noControls_hexDigits : ∀ n < 32, NoControls [hexDigit (n / 16), hexDigit (n % 16)] := by
  decide

theorem noControls_escape (c : Char) : NoControls (escape c) := by
  rcases escape_cases c with ⟨k, hk, hescape⟩ | ⟨hcontrol, hescape⟩ | ⟨-, -, hcontrol, hescape⟩
  · have hshort : ∀ m ∈ shortEscapes, NoControls ['\\', m.2] := by decide
    rw [hescape]
    exact hshort _ hk
  · have hmark : NoControls ['\\', 'u', '0', '0'] := by decide
    rw [hescape]
    exact noControls_append.2 ⟨hmark, noControls_hexDigits c.toNat hcontrol⟩
  · rw [hescape, noControls_cons]
    exact ⟨Nat.not_lt.1 hcontrol, noControls_nil⟩

theorem noControls_quoted (s : String) : NoControls (quoted s).toList := by
  have hquote : 32 ≤ '"'.toNat := by decide
  rw [quoted, String.toList_ofList, noControls_cons, noControls_append, noControls_cons]
  refine ⟨hquote, fun c hc => ?_, hquote, noControls_nil⟩
  obtain ⟨d, -, hd⟩ := List.mem_flatMap.1 hc
  exact noControls_escape d c hd

theorem noControls_toString (n : Nat) : NoControls (toString n).toList := by
  intro c hc
  have hdigit := Text.isDigit_of_mem_toDigits (n := n) c (Nat.toList_repr ▸ hc)
  exact Nat.le_trans (by decide) (Char.isDigit_iff_toNat.1 hdigit).1

/-! ## Objects -/

theorem noControls_objectText {members : List (String × String)}
    (h : ∀ m ∈ members, NoControls m.2.toList) : NoControls (objectText members).toList := by
  have hmarks : NoControls "\x7b".toList ∧ NoControls "\x7d".toList ∧ NoControls ",".toList ∧
      NoControls ":".toList := by decide
  obtain ⟨hopen, hclose, hcomma, hcolon⟩ := hmarks
  rw [objectText, String.toList_append, String.toList_append, noControls_append, noControls_append,
    String.toList_intercalate, List.map_map]
  refine ⟨⟨hopen, noControls_intercalate hcomma fun p hp => ?_⟩, hclose⟩
  obtain ⟨m, hm, rfl⟩ := List.mem_map.1 hp
  rw [Function.comp_apply, String.toList_append, String.toList_append, noControls_append,
    noControls_append]
  exact ⟨⟨noControls_quoted m.1, hcolon⟩, h m hm⟩

end PipeQuery.Json
