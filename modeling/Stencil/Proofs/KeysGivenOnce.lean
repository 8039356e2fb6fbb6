import Mathlib.Data.List.Perm.Subperm
import Stencil.Proofs.BoundNames

/-! Keys are given out once. A marker has a key that nothing had before it, unless its name is one that the
template binds, and so has every default; what else has a key shares one without options. So of the lists
of options that compiling an element leaves, at most one stands under a key that is not reserved, and
none under a key that was known before. -/
namespace Stencil

/-- The options that bindings have under a key, one list after the other. -/
def Binding.optionsUnder (key : String) (bindings : List Binding) : List (List Choice) :=
  bindings.filterMap fun b => if b.key = key then b.type.options? else none

namespace Binding

theorem optionsUnder_append (key : String) (bindings others : List Binding) :
    optionsUnder key (bindings ++ others) = optionsUnder key bindings ++ optionsUnder key others :=
  List.filterMap_append

theorem mem_optionsUnder {b : Binding} {bindings : List Binding} {options : List Choice}
    (member : b ∈ bindings) (type : b.type = .enumeration options) :
    options ∈ optionsUnder b.key bindings :=
  List.mem_filterMap.mpr ⟨b, member, by simp [type, KeyType.options?]⟩

end Binding

namespace Registry

variable {key : String} {r r' r'' : Registry} {bindings others : List Binding}

open Binding (optionsUnder)

/-- Between two registries a key is given to one list of options at most, and to none if it was known
before. -/
structure Once (key : String) (r : Registry) (bindings : List Binding) (r' : Registry) : Prop where
  later : Later r r'
  fresh : key ∈ r.names → optionsUnder key bindings = []
  single : (optionsUnder key bindings).length ≤ 1
  registered : optionsUnder key bindings ≠ [] → key ∈ r'.names

theorem Once.of_plain (later : Later r r') (plain : optionsUnder key bindings = []) :
    Once key r bindings r' := by
  refine ⟨later, fun _ => plain, ?_, fun some => absurd plain some⟩
  rw [plain]
  exact Nat.zero_le 1

theorem Once.trans (first : Once key r bindings r') (second : Once key r' others r'') :
    Once key r (bindings ++ others) r'' := by
  have split := Binding.optionsUnder_append key bindings others
  refine ⟨first.later.trans second.later, ?_, ?_, ?_⟩
  · intro known
    rw [split, first.fresh known, second.fresh (first.later.names.subset known)]
    rfl
  · -- A list in the first part makes the key known, so that the second part has none.
    by_cases none : optionsUnder key bindings = []
    · rw [split, none]
      exact second.single
    · rw [split, second.fresh (first.registered none), List.append_nil]
      exact first.single
  · intro some
    by_cases none : optionsUnder key bindings = []
    · rw [split, none] at some
      exact second.registered some
    · exact second.later.names.subset (first.registered none)

theorem Once.mono (once : Once key r bindings r') (later : Later r' r'') : Once key r bindings r'' := by
  have nothing : Once key r' [] r'' := Once.of_plain later rfl
  have whole := once.trans nothing
  rwa [List.append_nil] at whole

/-- Fewer lists of options under the key, in whatever order. -/
theorem Once.subperm (once : Once key r bindings r')
    (fewer : (optionsUnder key others).Subperm (optionsUnder key bindings)) : Once key r others r' := by
  refine ⟨once.later, ?_, Nat.le_trans fewer.length_le once.single, ?_⟩
  · intro known
    rw [once.fresh known] at fewer
    exact List.subperm_nil.mp fewer
  · intro some
    apply once.registered
    intro none
    rw [none] at fewer
    exact some (List.subperm_nil.mp fewer)

/-- A binding under a key that was not known, or that is another one. -/
theorem Once.of_free {b : Binding} (later : Later r r') (known : b.key ∈ r'.names)
    (free : b.key = key → b.key ∉ r.names) : Once key r [b] r' := by
  by_cases same : b.key = key
  · refine ⟨later, ?_, List.length_filterMap_le .., fun _ => same ▸ known⟩
    intro before
    exact absurd (same ▸ before) (free same)
  · exact Once.of_plain later (by simp [optionsUnder, same])

theorem register_free {name : String} {d : KeyDefinition} (called : r.register name d = .ok (key, r')) :
    key ∉ r.names ∧ key ∈ r'.names := by
  obtain ⟨checked, -, called⟩ := bind_eq_ok called
  cases called
  exact ⟨FreshName.pick_not_mem r.names checked, by simp [names]⟩

/-- A marker has a key of its own, unless the key is reserved. -/
theorem registerMarker_free {name : String} {d : KeyDefinition}
    (called : r.registerMarker name d = .ok (key, r')) (free : key ∉ r.reserved) : key ∉ r.names := by
  obtain ⟨checked, -, called⟩ := bind_eq_ok called
  split at called
  · rename_i shared
    cases called
    exact absurd (by simpa using (Bool.and_eq_true_iff.mp shared).1) free
  · exact (register_free called).1

end Registry

namespace Marker

open Registry (Once)

variable {key tag : String} {plain : KeyType} {r r' : Registry}

theorem once_register {m : Marker} {b : Binding} (unreserved : key ∉ r.reserved)
    (done : m.register plain tag r = .ok (b, r')) : Once key r [b] r' := by
  refine Once.of_free (register_later done) (key_of_register done).1 ?_
  rintro rfl
  obtain ⟨key, called, rfl⟩ := called_of_register done
  exact Registry.registerMarker_free called unreserved

theorem once_registerAll {markers : List Marker} {bindings : List Binding} (unreserved : key ∉ r.reserved)
    (done : registerAll plain tag markers r = .ok (bindings, r')) : Once key r bindings r' := by
  induction markers generalizing r bindings with
  | nil =>
    cases done
    exact Once.of_plain (.refl _) rfl
  | cons m rest ih =>
    obtain ⟨binding, middle, others, first, later, rfl⟩ := registerAll_cons done
    have here := once_register unreserved first
    exact here.trans (ih (here.later.reserved ▸ unreserved) later)

end Marker

namespace Attribute

open Binding (optionsUnder)
open Markup (Access)
open Registry (Once Later)

variable {σ : Type} {access : Access σ} {key tag : String} {r : Registry}

theorem once_authored {names : List String} {s s' : Compiling σ} {attributes : List Attribute}
    (unreserved : key ∉ s.registry.reserved)
    (done : authored access tag names s = (.ok attributes, s')) :
    Once key s.registry (attributes.flatMap (·.bindings)) s'.registry := by
  induction names generalizing s attributes with
  | nil =>
    cases done
    exact Once.of_plain (.refl _) rfl
  | cons name rest ih =>
    obtain ⟨raw, t, text, bindings, registry, later, read, valued, further, rfl⟩ := authored_cons done
    obtain ⟨node, -, rfl⟩ := onNode_eq_ok read
    obtain ⟨markers, -, registered⟩ := readValue_eq_ok valued
    have here := Marker.once_registerAll unreserved registered
    have others := ih (s := { s with node, registry }) (here.later.reserved ▸ unreserved) further
    exact here.trans others

/-- Putting an attribute adds its options at most. -/
theorem subperm_put (key : String) (attributes : List Attribute) (a : Attribute) :
    (optionsUnder key ((put attributes a).flatMap (·.bindings))).Subperm
      (optionsUnder key (attributes.flatMap (·.bindings) ++ a.bindings)) := by
  suffices fewer : ((put attributes a).flatMap (·.bindings)).Subperm
      (attributes.flatMap (·.bindings) ++ a.bindings) by
    obtain ⟨kept, same, inside⟩ := fewer
    exact ⟨_, same.filterMap _, inside.filterMap _⟩
  induction attributes with
  | nil => simpa [put] using List.Subperm.refl a.bindings
  | cons b rest ih =>
    unfold put
    split
    · have swapped : (a.bindings ++ rest.flatMap (·.bindings)).Subperm
          (rest.flatMap (·.bindings) ++ a.bindings) := List.perm_append_comm.subperm
      rw [List.flatMap_cons, List.flatMap_cons, List.append_assoc]
      exact swapped.trans (List.sublist_append_right ..).subperm
    · rw [List.flatMap_cons, List.flatMap_cons, List.append_assoc]
      exact (List.subperm_append_left _).mpr ih

theorem once_bindIds {ids : List String} {attributes bound : List Attribute} {s s' : Compiling σ}
    (once : Once key r (attributes.flatMap (·.bindings)) s.registry)
    (done : bindIds tag ids attributes s = (.ok bound, s')) :
    Once key r (bound.flatMap (·.bindings)) s'.registry := by
  induction ids generalizing attributes s with
  | nil =>
    cases done
    exact once
  | cons id rest ih =>
    obtain ⟨done, -⟩ | ⟨bearer, bindings, t, -, -, -, tied, done⟩ := bindIds_cons done
    · exact ih once done
    · have later := stepwise_grows.idBindings (σ := σ) bearer tag (Text.words bearer.text) s
      rw [tied] at later
      refine ih ((once.mono later).subperm ((subperm_put ..).trans ?_)) done
      have plain : optionsUnder key bindings = [] := by
        refine List.filterMap_eq_nil_iff.mpr fun b member => ?_
        simp [(type_of_mem_idBindings tied b member).1, KeyType.options?]
      rw [Binding.optionsUnder_append, plain, List.append_nil]

end Attribute

namespace Default

open Registry (Once)

variable {key tag : String} {r r' r'' : Registry} {attributes full : List Attribute}

theorem once_apply {d : Default} (once : Once key r (attributes.flatMap (·.bindings)) r')
    (done : d.apply tag attributes r' = .ok (full, r'')) :
    Once key r (full.flatMap (·.bindings)) r'' := by
  rcases apply_cases done with ⟨-, rfl, rfl⟩ | ⟨-, own, called, rfl⟩
  · exact once
  · have free := Registry.register_free called
    have new : Once key r' (d.replacement tag own).bindings r'' :=
      Once.of_free (Registry.Entry.later .register called) free.2 fun _ => free.1
    exact (once.trans new).subperm (Attribute.subperm_put ..)

theorem once_applyAll {defaults : List Default} (once : Once key r (attributes.flatMap (·.bindings)) r')
    (done : applyAll tag defaults attributes r' = (.ok full, r'')) :
    Once key r (full.flatMap (·.bindings)) r'' := by
  induction defaults generalizing attributes r' with
  | nil =>
    cases done
    exact once
  | cons d rest ih =>
    obtain ⟨next, after, applied, done⟩ := applyAll_cons done
    exact ih (once_apply once applied) done

end Default

namespace Attribute

open Markup (Access)
open Registry (Once)

theorem flatMap_bindings_put {attributes : List Attribute} {a old : Attribute}
    (found : find? attributes a.name = some old) (same : a.bindings = old.bindings) :
    (put attributes a).flatMap (·.bindings) = attributes.flatMap (·.bindings) := by
  induction attributes with
  | nil => cases found
  | cons b rest ih =>
    unfold put
    by_cases here : b.name = a.name
    · obtain rfl : b = old := by simpa [find?, here] using found
      simp [here, same]
    · have later : find? rest a.name = some old := by simpa [find?, here] using found
      simp [here, ih later]

/-- Compiling an element gives a key that is not reserved to one list of options at most. -/
theorem once_compile {σ : Type} {access : Access σ} {key tag template : String} {s after : Compiling σ}
    {full : List Attribute} (unreserved : key ∉ s.registry.reserved)
    (done : compile access tag template s = (.ok full, after)) :
    Once key s.registry (full.flatMap (·.bindings)) after.registry := by
  obtain ⟨names, start, written, t, bound, u, named, read, tied, completed⟩ :=
    compileAll_eq_ok (compile_eq_ok done)
  obtain ⟨node, -, rfl⟩ := onNode_eq_ok named
  have authored := once_authored (s := { s with node }) unreserved read
  have tied := once_bindIds authored tied
  obtain ⟨offered, applied, rfl⟩ := withDefaults_eq_ok completed
  have offered := Default.once_applyAll tied applied
  unfold Default.omitEmptyLimit
  split
  · rename_i limit known
    split
    · have own : limit.name = "maxlength" := by simpa using List.find?_some known
      have still : find? _ limit.name = some limit := own ▸ known
      rw [flatMap_bindings_put (a := { limit with omittedIfEmpty := true }) still rfl]
      exact offered
    · exact offered
  · exact offered

end Attribute

end Stencil
