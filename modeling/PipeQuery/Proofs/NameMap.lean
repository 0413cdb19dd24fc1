-- SUMMARY: Maps by name keep each name once, in order, and hold what they were given.
import Mathlib.Data.String.Basic
import PipeQuery.NameMap

/-! # Maps by Name -/

namespace PipeQuery.NameMap

variable {α : Type} {key name : String} {value : α} {map : NameMap α}

/-! ## Order -/

/-- Whether the names of a map ascend, so that no two are equal. -/
def Ascending (map : NameMap α) : Prop :=
  (map.map Prod.fst).Pairwise (· < ·)

theorem Ascending.nodup (h : Ascending map) : (map.map Prod.fst).Nodup :=
  h.imp ne_of_lt

theorem mem_names_insert (h : name ∈ (insert key value map).map Prod.fst) :
    name = key ∨ name ∈ map.map Prod.fst := by
  induction map with
  | nil => exact .inl (List.mem_singleton.1 h)
  | cons entry rest ih =>
    obtain ⟨k, v⟩ := entry
    rw [insert] at h
    split at h
    · rcases List.mem_cons.1 h with hkey | hrest
      · exact .inl hkey
      · exact .inr (List.mem_cons_of_mem _ hrest)
    · split at h
      · exact List.mem_cons.1 h
      · rcases List.mem_cons.1 h with hk | hrest
        · exact .inr (hk ▸ List.mem_cons_self)
        · exact (ih hrest).imp_right (List.mem_cons_of_mem _)

theorem Ascending.insert (h : Ascending map) (key : String) (value : α) :
    Ascending (map.insert key value) := by
  induction map with
  | nil => exact List.pairwise_singleton _ _
  | cons entry rest ih =>
    obtain ⟨k, v⟩ := entry
    obtain ⟨hfirst, hrest⟩ := List.pairwise_cons.1 h
    rw [NameMap.insert]
    split
    case isTrue hsame =>
      subst hsame
      exact h
    case isFalse hother =>
      split
      case isTrue hless =>
        -- The entry goes in front of names that are all larger than the first of them.
        refine List.pairwise_cons.2 ⟨fun name hname => ?_, h⟩
        rcases List.mem_cons.1 hname with rfl | hname
        · exact hless
        · exact lt_trans hless (hfirst name hname)
      case isFalse hless =>
        have hgreater : k < key := lt_of_le_of_ne (not_lt.1 hless) (Ne.symm hother)
        refine List.pairwise_cons.2 ⟨fun name hname => ?_, ih hrest⟩
        rcases mem_names_insert hname with rfl | hname
        · exact hgreater
        · exact hfirst name hname

theorem insert_ne_nil (key : String) (value : α) (map : NameMap α) : map.insert key value ≠ [] := by
  cases map with
  | nil => exact List.cons_ne_nil _ _
  | cons entry rest =>
    rw [insert]
    split
    · exact List.cons_ne_nil _ _
    · split <;> exact List.cons_ne_nil _ _

/-! ## Entries -/

/-- A new name is one more entry. -/
theorem insert_perm (h : key ∉ map.map Prod.fst) (value : α) :
    (map.insert key value).Perm ((key, value) :: map) := by
  induction map with
  | nil => exact .refl _
  | cons entry rest ih =>
    obtain ⟨k, v⟩ := entry
    rw [List.map_cons, List.mem_cons, not_or] at h
    obtain ⟨hother, hrest⟩ := h
    rw [insert, if_neg hother]
    split
    · exact .refl _
    · exact ((ih hrest).cons (k, v)).trans (.swap _ _ _)

/-- Entries of different names are kept, in the order of their names. -/
theorem foldl_insert_perm {entries : List (String × α)}
    (h : ((map ++ entries).map Prod.fst).Nodup) :
    (entries.foldl (fun map m => insert m.1 m.2 map) map).Perm (map ++ entries) := by
  induction entries generalizing map with
  | nil => rw [List.append_nil]; exact .refl _
  | cons m ms ih =>
    have hmove : (map ++ m :: ms).Perm ((m :: map) ++ ms) := List.perm_middle
    have hnodup : (((m :: map) ++ ms).map Prod.fst).Nodup := (hmove.map Prod.fst).nodup_iff.1 h
    have hnew : m.1 ∉ map.map Prod.fst := by
      rw [List.cons_append, List.map_cons, List.nodup_cons, List.map_append] at hnodup
      exact fun hmem => hnodup.1 (List.mem_append_left _ hmem)
    have hstep : (insert m.1 m.2 map ++ ms).Perm ((m :: map) ++ ms) :=
      (insert_perm hnew m.2).append_right ms
    refine (ih ((hstep.map Prod.fst).nodup_iff.2 hnodup)).trans ?_
    exact hstep.trans hmove.symm

/-! ## Lookup -/

theorem lookup_eq_some_iff_mem {entries : List (String × α)} (h : (entries.map Prod.fst).Nodup) :
    entries.lookup name = some value ↔ (name, value) ∈ entries := by
  induction entries with
  | nil => exact iff_of_false nofun List.not_mem_nil
  | cons m ms ih =>
    obtain ⟨k, v⟩ := m
    rw [List.map_cons, List.nodup_cons] at h
    obtain ⟨hnew, hms⟩ := h
    by_cases hname : name = k
    · subst hname
      have hother : (name, value) ∉ ms := fun hmem =>
        hnew (List.mem_map.2 ⟨_, hmem, rfl⟩)
      simp [hother, eq_comm]
    · simp [List.lookup_cons, beq_false_of_ne hname, hname, ih hms]

theorem lookup_map {β : Type} (f : α → β) (entries : List (String × α)) (name : String) :
    (entries.map fun m => (m.1, f m.2)).lookup name = (entries.lookup name).map f := by
  induction entries with
  | nil => rfl
  | cons m ms ih =>
    rw [List.map_cons, lookup_cons, lookup_cons, ih]
    split <;> rfl

/-- Where names are different, their order does not matter. -/
theorem lookup_perm {entries others : List (String × α)} (h : (entries.map Prod.fst).Nodup)
    (hperm : others.Perm entries) (name : String) : others.lookup name = entries.lookup name := by
  have hothers : (others.map Prod.fst).Nodup := (hperm.map Prod.fst).nodup_iff.2 h
  refine Option.ext fun value => ?_
  rw [lookup_eq_some_iff_mem hothers, lookup_eq_some_iff_mem h]
  exact hperm.mem_iff

end PipeQuery.NameMap
