-- SUMMARY: A record has under each name the value it was written with, and none under any other name.
import PipeQuery.Json.Basic
import PipeQuery.NameMap

/-! # Fields of Records

A record whose names are all different is looked into like a list of pairs. -/

namespace PipeQuery.Json

variable {members : List (String × Json)}

theorem member?_cons_of_ne {m : String × Json} {name : String} (h : m.1 ≠ name)
    (members : List (Text × Json)) :
    member? ((some m.1, m.2) :: members) name = member? members name := by
  have hother : ((some m.1 : Text) == some name) = false := by simpa using h
  simp only [member?, List.filter_cons, hother, Bool.false_eq_true, if_false]

/-- A name that comes once stands for its value. -/
theorem member?_cons_self {m : String × Json} (h : m.1 ∉ members.map Prod.fst) :
    member? ((some m.1, m.2) :: members.map fun m => (some m.1, m.2)) m.1 =
      some m.2 := by
  have hnone : (members.map fun m => (some m.1, m.2)).filter (·.1 == some m.1) = [] := by
    rw [List.filter_map, List.map_eq_nil_iff, List.filter_eq_nil_iff]
    intro n hn hname
    have hsame : n.1 = m.1 := by simpa using hname
    exact h (hsame ▸ List.mem_map_of_mem hn)
  simp [member?, hnone]

/-- Each name stands for its value, and any other name for none. -/
theorem member?_eq_lookup (hnames : (members.map Prod.fst).Nodup) (name : String) :
    member? (members.map fun m => (some m.1, m.2)) name = members.lookup name := by
  induction members with
  | nil => rfl
  | cons m ms ih =>
    rw [List.map_cons, List.nodup_cons] at hnames
    obtain ⟨hnew, hnames⟩ := hnames
    rw [NameMap.lookup_cons]
    by_cases h : name = m.1
    · subst h
      rw [if_pos rfl]
      exact member?_cons_self hnew
    · rw [if_neg h, ← ih hnames]
      exact member?_cons_of_ne (Ne.symm h) _

theorem member?_of_mem (hnames : (members.map Prod.fst).Nodup) {m : String × Json}
    (hm : m ∈ members) :
    member? (members.map fun m => (some m.1, m.2)) m.1 = some m.2 := by
  induction members with
  | nil => exact absurd hm List.not_mem_nil
  | cons n ns ih =>
    rw [List.map_cons, List.nodup_cons] at hnames
    obtain ⟨hnew, hnames⟩ := hnames
    rcases List.mem_cons.1 hm with rfl | hm
    · exact member?_cons_self hnew
    · have hother : n.1 ≠ m.1 := by
        intro heq
        exact hnew (heq ▸ List.mem_map_of_mem hm)
      exact (member?_cons_of_ne hother _).trans (ih hnames hm)

/-- A record has its values under the names they were written with. -/
theorem fields?_record (hnames : (members.map Prod.fst).Nodup) :
    (record members).fields? (members.map Prod.fst) = some (members.map Prod.snd) := by
  have hfound : ∀ ms : List (String × Json), ms ⊆ members →
      (ms.map Prod.fst).mapM (member? (members.map fun m => (some m.1, m.2))) =
        some (ms.map Prod.snd) := by
    intro ms hms
    induction ms with
    | nil => rfl
    | cons m ms ih =>
      obtain ⟨hm, hms⟩ := List.cons_subset.1 hms
      simp [member?_of_mem hnames hm, ih hms]
  have hsome : (members.map fun m => (some m.1, m.2)).all
      (fun m : Text × Json => m.1.isSome) = true := by
    simp
  rw [record, fields?, if_pos hsome]
  exact hfound members (List.Subset.refl _)

theorem naturalUpTo?_natural {n most : Nat} (h : n ≤ most) :
    (natural n).naturalUpTo? most = some n :=
  if_pos h

end PipeQuery.Json
