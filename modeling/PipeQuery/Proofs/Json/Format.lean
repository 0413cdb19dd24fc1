-- SUMMARY: JSON keeps the laws of record formats and of value formats.
import PipeQuery.Json.Format
import PipeQuery.Proofs.Json.Fields
import PipeQuery.Proofs.Json.ReadBack
import PipeQuery.Proofs.NameMap

/-! # JSON Formats Are Lawful -/

namespace PipeQuery.Json

/-! ## Texts -/

theorem render_text (s : String) : (text s).render = quoted s := by
  rw [render, text, print_string]
  rfl

theorem render_natural (n : Nat) : (natural n).render = toString n := by
  rw [render, natural, print_number, Number.print]
  exact congrArg String.ofList (List.append_nil _)

theorem render_bool (b : Bool) : (Json.bool b).render = toString b := by
  cases b <;> rfl

theorem printMembers_eq (members : List (String × Json)) :
    printMembers (members.map fun m => (some m.1, m.2)) =
      [','].intercalate (members.map fun m => (quoted m.1 ++ ":" ++ m.2.render).toList) := by
  have hmember : ∀ m : String × Json,
      (quoted m.1 ++ ":" ++ m.2.render).toList = printText (some m.1) ++ ':' :: print m.2 := by
    intro m
    simp [quoted, render, printText_some]
  induction members with
  | nil => rfl
  | cons m ms ih =>
    cases ms with
    | nil =>
      rw [List.map_singleton, List.map_singleton, printMembers, List.intercalate_singleton, hmember]
    | cons n ns =>
      rw [List.map_cons, List.map_cons] at ih
      rw [List.map_cons, List.map_cons, printMembers, ih, List.map_cons, List.map_cons,
        List.intercalate_cons_cons, hmember m]
      simp

theorem render_record (members : List (String × Json)) :
    (record members).render = objectText (members.map fun m => (m.1, m.2.render)) := by
  refine String.toList_injective ?_
  rw [render, String.toList_ofList, record, print_object, printMembers_eq, objectText,
    String.toList_append, String.toList_append, String.toList_intercalate, List.map_map, List.map_map]
  rfl

/-- Whole values are read back from their texts. -/
theorem parse?_render {v : Json} (h : Whole v) : parse? v.render.toList = some v := by
  rw [render, String.toList_ofList]
  exact parse?_print h

/-! ## Records -/

theorem exists_values {members : List (String × String)}
    (h : ∀ m ∈ members, ∃ v, Whole v ∧ m.2 = v.render) :
    ∃ values : List (String × Json), (∀ m ∈ values, Whole m.2) ∧
      members = values.map fun m => (m.1, m.2.render) := by
  induction members with
  | nil => exact ⟨[], nofun, rfl⟩
  | cons m ms ih =>
    obtain ⟨⟨v, hv, htext⟩, hms⟩ := List.forall_mem_cons.1 h
    obtain ⟨values, hvalues, rfl⟩ := ih hms
    exact ⟨(m.1, v) :: values, List.forall_mem_cons.2 ⟨hv, hvalues⟩, by rw [List.map_cons, ← htext]⟩

/-- What is written as a part of a record is the text of a value. -/
theorem exists_whole_of_writes {cs : String} (h : recordFormat.Writes cs) :
    ∃ v, Whole v ∧ cs = v.render := by
  induction h with
  | @natural n cs hcs => exact ⟨natural n, whole_natural n, (Except.ok.inj hcs).symm⟩
  | @text s cs hcs =>
    exact ⟨text s, whole_text s, (Except.ok.inj hcs).symm.trans (render_text s).symm⟩
  | @choice name cs hcs =>
    exact ⟨text name, whole_text name, (Except.ok.inj hcs).symm.trans (render_text name).symm⟩
  | @record members cs _ hcs ih =>
    obtain ⟨values, hvalues, rfl⟩ := exists_values ih
    exact ⟨record values, whole_record hvalues,
      (Except.ok.inj hcs).symm.trans (render_record values).symm⟩

theorem lawful_recordFormat : recordFormat.Lawful where
  natural n _ := by
    refine ⟨_, rfl, fun most hmost => ?_⟩
    simp only [recordFormat, parse?_render (whole_natural n)]
    exact naturalUpTo?_natural hmost
  text s := by
    refine ⟨_, rfl, ?_⟩
    simp only [recordFormat, ← render_text, parse?_render (whole_text s)]
    rfl
  choice names name _ hname := by
    refine ⟨_, rfl, ?_⟩
    simp only [recordFormat, ← render_text, parse?_render (whole_text name)]
    exact if_pos hname
  record members hnames hmembers := by
    obtain ⟨values, hvalues, rfl⟩ :=
      exists_values fun m hm => exists_whole_of_writes (hmembers m hm)
    have hfields : (record values).fields? (values.map Prod.fst) = some (values.map Prod.snd) :=
      fields?_record (by simpa [Function.comp_def] using hnames)
    refine ⟨_, rfl, ?_⟩
    simp only [recordFormat, ← render_record, parse?_render (whole_record hvalues), List.map_map]
    simp [Function.comp_def, hfields]

/-! ## Values -/

theorem named_record (members : List (String × Json)) :
    named (members.map fun m => (some m.1, m.2)) = members := by
  simp [named, List.filterMap_map]

/-- The members of an object, in the order of their names. -/
theorem sorted_perm {members : List (String × Json)} (h : (members.map Prod.fst).Nodup) :
    (members.foldl (fun map m => NameMap.insert m.1 m.2 map) []).Perm members :=
  @NameMap.foldl_insert_perm _ [] members h

theorem whole_sorted {members : List (String × Json)} (hnames : (members.map Prod.fst).Nodup)
    (h : ∀ m ∈ members, Whole m.2) : Whole (sorted members) :=
  whole_record fun m hm => h m ((sorted_perm hnames).mem_iff.1 hm)

theorem setMember_sorted (members : List (String × Json)) (name : String) (value : Json) :
    setMember name value (sorted members) = sorted (members ++ [(name, value)]) := by
  rw [sorted, sorted, record, setMember, named_record, List.foldl_append]
  rfl

theorem whole_of_plain {v : valueFormat.Value} (h : valueFormat.Plain v) : Whole v := by
  induction h with
  | text s => exact whole_text s
  | @natural n _ => exact whole_natural n
  | flag b => exact .bool b
  | object hnames _ ih => exact whole_sorted hnames ih

theorem lawful_valueFormat : valueFormat.Lawful where
  text?_text _ := rfl
  natural?_natural _ hn := naturalUpTo?_natural (Nat.le_sub_one_of_lt hn)
  member?_object members hnames name := by
    have hperm := sorted_perm hnames
    exact (member?_eq_lookup ((hperm.map Prod.fst).nodup_iff.2 hnames) name).trans
      (NameMap.lookup_perm hnames hperm name)
  set_object members name value _ := setMember_sorted members name value
  print_text s := congrArg Except.ok (render_text s)
  print_natural n _ := congrArg Except.ok (render_natural n)
  print_flag b := congrArg Except.ok (render_bool b)
  print_object members texts hnames htexts := by
    have hperm := sorted_perm hnames
    refine ⟨_, hperm, congrArg Except.ok ((render_record _).trans (congrArg objectText ?_))⟩
    refine List.map_congr_left fun m hm => ?_
    rw [Except.ok.inj (htexts m (hperm.mem_iff.1 hm))]
  parse?_print v hv cs hcs := by
    rw [← Except.ok.inj hcs]
    exact parse?_render (whole_of_plain hv)

end PipeQuery.Json
