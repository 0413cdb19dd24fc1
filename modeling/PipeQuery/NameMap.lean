-- SUMMARY: Maps from names to values whose entries stand in the order of their names.

/-! # Maps by Name -/

namespace PipeQuery

/-- Values under names, in the order of the names. -/
abbrev NameMap (α : Type) := List (String × α)

namespace NameMap

variable {α : Type}

/-- Sets a value. An earlier value of the same name is replaced. -/
def insert (key : String) (value : α) : NameMap α → NameMap α
  | [] => [(key, value)]
  | (k, v) :: rest =>
    if key = k then (key, value) :: rest
    else if key < k then (key, value) :: (k, v) :: rest
    else (k, v) :: insert key value rest

def get? (map : NameMap α) (key : String) : Option α :=
  map.lookup key

theorem lookup_cons (m : String × α) (map : NameMap α) (name : String) :
    (m :: map).lookup name = if name = m.1 then some m.2 else map.lookup name := by
  rw [List.lookup_cons]
  by_cases h : name = m.1
  · rw [if_pos h, beq_iff_eq.2 h]
  · rw [if_neg h, beq_false_of_ne h]

@[simp] theorem get?_nil (key : String) : get? ([] : NameMap α) key = none := rfl

theorem get?_cons (k : String) (v : α) (map : NameMap α) (key : String) :
    get? ((k, v) :: map) key = if key = k then some v else get? map key :=
  lookup_cons (k, v) map key

/-- The last value of a name counts. -/
theorem get?_insert (map : NameMap α) (key : String) (value : α) (name : String) :
    get? (insert key value map) name = if name = key then some value else get? map name := by
  induction map with
  | nil => simp [insert, get?_cons]
  | cons entry rest ih =>
    obtain ⟨k, v⟩ := entry
    simp only [insert]
    split
    · subst_vars
      by_cases h : name = k <;> simp [get?_cons, h]
    · split
      · simp [get?_cons]
      · by_cases h : name = k
        · have : k ≠ key := fun e => ‹¬key = k› e.symm
          simp [get?_cons, h, this]
        · simp [get?_cons, h, ih]

end NameMap

end PipeQuery
