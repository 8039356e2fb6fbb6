import Stencil.Key.KeyType
import Stencil.LogicLess.Draft

/-! What look-ups in ordered maps show after a change, which values the keys of an attribute can have, and
what a table of options does to the values of its key. -/
namespace Stencil

namespace Entries

variable {α : Type}

def names (entries : Entries α) : List String := entries.map (·.1)

@[simp] theorem get?_nil (key : String) : get? ([] : Entries α) key = none := rfl

theorem get?_cons (e : String × α) (rest : Entries α) (key : String) :
    get? (e :: rest) key = if e.1 = key then some e.2 else get? rest key := by
  by_cases same : e.1 = key <;> simp [get?, same]

theorem get?_eq_none (entries : Entries α) (key : String) (absent : key ∉ entries.names) :
    entries.get? key = none := by
  simp only [names, List.mem_map, not_exists, not_and] at absent
  simp only [get?, Option.map_eq_none_iff, List.find?_eq_none, beq_iff_eq]
  exact absent

/-- Putting a name changes what is seen under that name and nothing else. -/
theorem get?_put (entries : Entries α) (name key : String) (value : α) :
    (entries.put name value).get? key = if name = key then some value else entries.get? key := by
  induction entries with
  | nil => simp [put, get?_cons]
  | cons e rest ih =>
    unfold put
    by_cases same : e.1 = name
    · by_cases here : name = key <;> simp [get?_cons, same, here]
    · by_cases here : e.1 = key
      · have other : name ≠ key := fun equal => same (here.trans equal.symm)
        rw [if_neg (by simpa using same), get?_cons, get?_cons]
        simp [here, other]
      · simp [get?_cons, same, here, ih]

theorem names_put (entries : Entries α) (name : String) (value : α) :
    (entries.put name value).names = if name ∈ entries.names then entries.names
      else entries.names ++ [name] := by
  induction entries with
  | nil => simp [put, names]
  | cons e rest ih =>
    unfold put
    by_cases same : e.1 = name
    · simp [names, same]
    · have other : name ≠ e.1 := Ne.symm same
      simp only [names, List.map_cons, List.mem_cons, other, false_or] at ih ⊢
      by_cases later : name ∈ rest.map (·.1) <;> simp [same, ih, later]

theorem names_put_nodup {entries : Entries α} (distinct : entries.names.Nodup) (name : String)
    (value : α) : (entries.put name value).names.Nodup := by
  rw [names_put]
  split
  · exact distinct
  · rename_i absent
    refine List.nodup_append.mpr ⟨distinct, by simp, ?_⟩
    intro a member b last same
    exact absent (List.mem_singleton.mp last ▸ same ▸ member)

theorem get?_update (entries : Entries α) (name key : String) (f : α → α) :
    (entries.update name f).get? key =
      if name = key then (entries.get? key).map f else entries.get? key := by
  induction entries with
  | nil => simp [update]
  | cons e rest ih =>
    simp only [update, List.map_cons] at ih ⊢
    rw [get?_cons, get?_cons, ih]
    by_cases same : e.1 = name <;> by_cases here : e.1 = key <;> by_cases both : name = key <;>
      simp_all

/-- Of pairs with distinct names each is found under its name, and what was there before stays. -/
theorem get?_foldl_put (pairs : List (String × α)) (start : Entries α) (key : String)
    (distinct : (pairs.map (·.1)).Nodup) :
    (pairs.foldl (fun entries p => entries.put p.1 p.2) start).get? key =
      (((pairs.find? (·.1 == key)).map (·.2)).or (start.get? key)) := by
  induction pairs generalizing start with
  | nil => simp
  | cons p rest ih =>
    simp only [List.map_cons, List.nodup_cons] at distinct
    rw [List.foldl_cons, ih _ distinct.2, get?_put]
    by_cases here : p.1 = key
    · have absent : rest.find? (·.1 == key) = none := by
        rw [List.find?_eq_none]
        intro q member same
        exact distinct.1 (List.mem_map.mpr ⟨q, member, (beq_iff_eq.mp same).trans here.symm⟩)
      simp [here, absent]
    · simp [here]

end Entries

/-- Each key is unset or has a value; that of an enumeration is the name of an option. -/
def Attribute.Assigned (a : Attribute) (values : Entries String) : Prop :=
  ∀ b ∈ a.bindings, ∀ options ∈ b.type.options?.toList, ∀ name ∈ (values.get? b.key).toList,
    name ∈ options.map (·.name)

instance (a : Attribute) (values : Entries String) : Decidable (a.Assigned values) :=
  inferInstanceAs (Decidable (∀ b ∈ a.bindings, ∀ options ∈ b.type.options?.toList,
    ∀ name ∈ (values.get? b.key).toList, name ∈ options.map (·.name)))

/-- Options with distinct names are all in their table. -/
theorem Choice.get?_table {options : List Choice} (distinct : (options.map (·.name)).Nodup)
    (name : String) :
    (Choice.table options).get? name = (options.find? (·.name == name)).map (·.value) := by
  have found := Entries.get?_foldl_put (options.map fun c => (c.name, c.value)) [] name
    (by simpa [Function.comp_def] using distinct)
  simpa [Choice.table, Entries.ofList, List.find?_map, Function.comp_def] using found

/-- An option is found by its name, if no other has it. -/
theorem Choice.find?_name {options : List Choice} (distinct : (options.map (·.name)).Nodup) {c : Choice}
    (member : c ∈ options) : options.find? (·.name == c.name) = some c := by
  induction options with
  | nil => simp at member
  | cons first rest ih =>
    simp only [List.map_cons, List.nodup_cons] at distinct
    rcases List.mem_cons.mp member with rfl | later
    · simp
    · have other : first.name ≠ c.name := fun same =>
        distinct.1 (same ▸ List.mem_map_of_mem later)
      simpa [other] using ih distinct.2 later

/-- Under distinct names each option is in the table with its value. -/
theorem Choice.get?_table_name {options : List Choice} (distinct : (options.map (·.name)).Nodup) {c : Choice}
    (member : c ∈ options) : (Choice.table options).get? c.name = some c.value := by
  rw [Choice.get?_table distinct, Choice.find?_name distinct member]
  rfl

namespace LogicLess.Lookup

/-- Every key has a table of its own at most, so each value is mapped once. -/
theorem get?_apply {lookup : Lookup} (distinct : (Entries.names lookup).Nodup)
    (values : Entries String) (key : String) :
    (lookup.apply values).get? key = match Entries.get? lookup key with
      | none => values.get? key
      | some table => (values.get? key).map fun v => (table.get? v).getD v := by
  induction lookup generalizing values with
  | nil => rfl
  | cons entry rest ih =>
    simp only [Entries.names, List.map_cons, List.nodup_cons] at distinct
    have later := ih distinct.2 (values.update entry.1 fun v => (entry.2.get? v).getD v)
    change (Lookup.apply rest _).get? key = _
    rw [later, Entries.get?_cons, Entries.get?_update]
    by_cases here : entry.1 = key
    · have absent := Entries.get?_eq_none rest key (here ▸ distinct.1)
      simp [here, absent]
    · simp [here]

/-- A table does not change which keys have a value. -/
theorem isSome_get?_apply (lookup : Lookup) (values : Entries String) (key : String) :
    ((lookup.apply values).get? key).isSome = (values.get? key).isSome := by
  induction lookup generalizing values with
  | nil => rfl
  | cons entry rest ih =>
    have later := ih (values.update entry.1 fun v => (entry.2.get? v).getD v)
    change ((Lookup.apply rest _).get? key).isSome = _
    rw [later, Entries.get?_update]
    split <;> simp

/-- What one binding adds to the tables. -/
def recordBinding (lookup : Lookup) (b : Binding) : Lookup :=
  match b.type with
  | .enumeration options => Entries.put lookup b.key (Choice.table options)
  | _ => lookup

theorem recordBinding_other (lookup : Lookup) (b : Binding) {key : String}
    (plain : b.key = key → b.type.options? = none) :
    Entries.get? (recordBinding lookup b) key = Entries.get? lookup key := by
  unfold recordBinding
  split
  · rename_i options type
    have other : b.key ≠ key := fun same => by simpa [type, KeyType.options?] using plain same
    rw [Entries.get?_put, if_neg other]
  · rfl

theorem recordBinding_nodup {lookup : Lookup} (distinct : (Entries.names lookup).Nodup) (b : Binding) :
    (Entries.names (recordBinding lookup b)).Nodup := by
  unfold recordBinding
  split
  · exact Entries.names_put_nodup distinct ..
  · exact distinct

theorem foldl_recordBinding_nodup {lookup : Lookup} (distinct : (Entries.names lookup).Nodup)
    (bindings : List Binding) : (Entries.names (bindings.foldl recordBinding lookup)).Nodup := by
  induction bindings generalizing lookup with
  | nil => exact distinct
  | cons b rest ih => exact ih (recordBinding_nodup distinct b)

/-- Only the options of a key change its table. -/
theorem foldl_recordBinding_other (bindings : List Binding) (lookup : Lookup) {key : String}
    (plain : ∀ b ∈ bindings, b.key = key → b.type.options? = none) :
    Entries.get? (bindings.foldl recordBinding lookup) key = Entries.get? lookup key := by
  induction bindings generalizing lookup with
  | nil => rfl
  | cons b rest ih =>
    rw [List.foldl_cons, ih _ fun c member => plain c (List.mem_cons_of_mem b member)]
    exact recordBinding_other lookup b (plain b (List.mem_cons_self ..))

/-- Bindings with distinct keys each find their own table, and one without options the table that was
there before. -/
theorem get?_foldl_recordBinding (bindings : List Binding) (lookup : Lookup) {b : Binding}
    (distinct : (bindings.map (·.key)).Nodup) (member : b ∈ bindings) :
    Entries.get? (bindings.foldl recordBinding lookup) b.key =
      Entries.get? (recordBinding lookup b) b.key := by
  induction bindings generalizing lookup with
  | nil => simp at member
  | cons first rest ih =>
    simp only [List.map_cons, List.nodup_cons] at distinct
    rcases List.mem_cons.mp member with rfl | later
    · have absent : ∀ c ∈ rest, c.key = b.key → c.type.options? = none := fun c known same =>
        absurd (List.mem_map.mpr ⟨c, known, same⟩) distinct.1
      rw [List.foldl_cons, foldl_recordBinding_other rest _ absent]
    · have other : first.key ≠ b.key := fun same => distinct.1 (same ▸ List.mem_map_of_mem later)
      rw [List.foldl_cons, ih _ distinct.2 later]
      unfold recordBinding
      split
      · rw [Entries.get?_put, Entries.get?_put, if_pos rfl, if_pos rfl]
      · exact recordBinding_other lookup first fun same => absurd same other

end LogicLess.Lookup

end Stencil
