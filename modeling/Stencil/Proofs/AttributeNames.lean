import Stencil.Proofs.CompiledAttributes

/-! The names of compiled attributes: those of the element, sorted, and after them those that its tag offers
besides. No pass takes an attribute away or brings a name in twice. -/
namespace Stencil

namespace Attribute

open Markup (Access)

variable {σ : Type} {access : Access σ} {tag : String}

theorem names_put (attributes : List Attribute) (a : Attribute) :
    (put attributes a).map (·.name) =
      if a.name ∈ attributes.map (·.name) then attributes.map (·.name)
      else attributes.map (·.name) ++ [a.name] := by
  induction attributes with
  | nil => simp [put]
  | cons b rest ih =>
    unfold put
    by_cases same : b.name = a.name
    · simp [same]
    · rw [if_neg (by simpa using same), List.map_cons, ih]
      by_cases known : a.name ∈ rest.map (·.name)
      · simp [known]
      · simp [known, Ne.symm same]

/-- An attribute that stands for one of its name changes no name. -/
theorem names_put_of_mem {attributes : List Attribute} {a : Attribute}
    (known : a.name ∈ attributes.map (·.name)) : (put attributes a).map (·.name) = attributes.map (·.name) := by
  rw [names_put, if_pos known]

theorem name_mem_of_find? {attributes : List Attribute} {a : Attribute} {name : String}
    (found : find? attributes name = some a) : a.name ∈ attributes.map (·.name) :=
  List.mem_map_of_mem (List.mem_of_find?_eq_some found)

theorem names_authored {names : List String} {s s' : Compiling σ} {attributes : List Attribute}
    (done : authored access tag names s = (.ok attributes, s')) : attributes.map (·.name) = names := by
  induction names generalizing s attributes with
  | nil =>
    cases done
    rfl
  | cons name rest ih =>
    obtain ⟨_, _, _, _, _, later, -, -, further, rfl⟩ := authored_cons done
    rw [List.map_cons, ih further]

theorem names_bindIds {ids : List String} {attributes bound : List Attribute} {s s' : Compiling σ}
    (done : bindIds tag ids attributes s = (.ok bound, s')) :
    bound.map (·.name) = attributes.map (·.name) := by
  induction ids generalizing attributes s with
  | nil =>
    cases done
    rfl
  | cons id rest ih =>
    obtain ⟨done, -⟩ | ⟨bearer, bindings, t, known, -, -, -, done⟩ := bindIds_cons done
    · exact ih done
    · have listed := name_mem_of_find? known
      rw [ih done]
      exact names_put_of_mem listed

end Attribute

namespace Default

variable {tag : String} {attributes full : List Attribute} {r r' : Registry}

/-- No tag offers an attribute twice. -/
theorem nodup_forTag (tag : String) (attributes : List Attribute) :
    ((forTag tag attributes).map (·.attributeName)).Nodup := by
  unfold forTag
  split
  case h_5 => exact (names_forInput ..).nodup (by decide)
  all_goals simp [required, free, flag, number, named, text, mediaFlags]

theorem name_mem_of_isBound {name : String} (bound : isBound attributes name = true) :
    name ∈ attributes.map (·.name) := by
  unfold isBound at bound
  cases found : Attribute.find? attributes name with
  | none =>
    rw [found] at bound
    cases bound
  | some a =>
    have own : a.name = name := by simpa using List.find?_some found
    exact own ▸ Attribute.name_mem_of_find? found

theorem names_apply {d : Default} (done : d.apply tag attributes r = .ok (full, r')) :
    full.map (·.name) =
      attributes.map (·.name) ++ [d.attributeName].filter (· ∉ attributes.map (·.name)) := by
  rcases apply_cases done with ⟨bound, rfl, rfl⟩ | ⟨-, key, -, rfl⟩
  · rw [List.filter_cons_of_neg (by simpa using name_mem_of_isBound bound), List.filter_nil, List.append_nil]
  · rw [Attribute.names_put]
    by_cases old : d.attributeName ∈ attributes.map (·.name)
    · rw [if_pos (by exact old), List.filter_cons_of_neg (by simpa using old), List.filter_nil,
        List.append_nil]
    · rw [if_neg (by exact old), List.filter_cons_of_pos (by simpa using old)]
      rfl

/-- Defaults add their names behind those that are there, in their own order. -/
theorem names_applyAll {defaults : List Default} (once : (defaults.map (·.attributeName)).Nodup)
    (done : applyAll tag defaults attributes r = (.ok full, r')) :
    full.map (·.name) = attributes.map (·.name) ++
      (defaults.map (·.attributeName)).filter (· ∉ attributes.map (·.name)) := by
  induction defaults generalizing attributes r with
  | nil =>
    cases done
    simp
  | cons d rest ih =>
    obtain ⟨next, after, applied, done⟩ := applyAll_cons done
    rw [List.map_cons, List.nodup_cons] at once
    -- A later default has another name, so it is new before this one exactly if it is new after it.
    have others : (rest.map (·.attributeName)).filter (· ∉ next.map (·.name)) =
        (rest.map (·.attributeName)).filter (· ∉ attributes.map (·.name)) := by
      refine List.filter_congr fun name member => ?_
      have apart : name ≠ d.attributeName := fun same => once.1 (same ▸ member)
      rw [names_apply applied]
      simp [apart]
    rw [ih once.2 done, others, names_apply applied, List.append_assoc, ← List.filter_append]
    rfl

theorem names_omitEmptyLimit (type : Option String) :
    (omitEmptyLimit tag type attributes).map (·.name) = attributes.map (·.name) := by
  unfold omitEmptyLimit
  split
  · rename_i limit known
    have listed := Attribute.name_mem_of_find? known
    split
    · exact Attribute.names_put_of_mem listed
    · rfl
  · rfl

end Default

namespace Attribute

open Markup (Access)

theorem names_withDefaults {σ : Type} {tag : String} {attributes full : List Attribute}
    {s s' : Compiling σ} (done : withDefaults tag attributes s = (.ok full, s')) :
    full.map (·.name) = attributes.map (·.name) ++
      ((Default.forTag tag attributes).map (·.attributeName)).filter (· ∉ attributes.map (·.name)) := by
  obtain ⟨offered, applied, rfl⟩ := withDefaults_eq_ok done
  rw [Default.names_omitEmptyLimit]
  exact Default.names_applyAll (Default.nodup_forTag tag attributes) applied

theorem nodup_withDefaults {σ : Type} {tag : String} {attributes full : List Attribute} {s s' : Compiling σ}
    (once : (attributes.map (·.name)).Nodup) (done : withDefaults tag attributes s = (.ok full, s')) :
    (full.map (·.name)).Nodup := by
  rw [names_withDefaults done]
  refine List.nodup_append.mpr ⟨once, (Default.nodup_forTag tag attributes).filter _, ?_⟩
  rintro name old _ new rfl
  exact of_decide_eq_true (List.mem_filter.mp new).2 old

/-- The names of the attributes of an element, then those that its tag offers besides. -/
theorem names_compile {σ : Type} {access : Access σ} {tag template : String} {s after : Compiling σ}
    {full : List Attribute} (done : compile access tag template s = (.ok full, after)) :
    ∃ names start more, onNode access.attributeNames s = (.ok names, start) ∧
      full.map (·.name) = sortNames names ++ more ∧ more ⊆ Default.offeredNames ∧
      (names.Nodup → (full.map (·.name)).Nodup) := by
  obtain ⟨names, start, written, t, bound, u, named, read, tied, completed⟩ :=
    compileAll_eq_ok (compile_eq_ok done)
  have sorted : bound.map (·.name) = sortNames names := (names_bindIds tied).trans (names_authored read)
  refine ⟨names, start, _, named, sorted ▸ names_withDefaults completed, fun name inside => ?_,
    fun once => nodup_withDefaults ?_ completed⟩
  · obtain ⟨d, member, rfl⟩ := List.mem_map.mp (List.mem_filter.mp inside).1
    exact Default.offered_of_mem_forTag _ bound d member
  · rw [sorted]
    exact (List.mergeSort_perm ..).nodup_iff.mpr once

end Attribute

end Stencil
