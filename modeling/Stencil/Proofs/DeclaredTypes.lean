import Stencil.Proofs.ChoiceTables
import Stencil.Proofs.GrantedBindings

/-! The types that keys are declared with, beside those that attributes render. A key is declared as what
asked for it first, or as the last marker that took it over; an attribute renders what it asked for
itself. The two agree but where a key has several users: ids share a key whatever its type, and the
markers of a name that the template binds share one key whose type is that of the last. -/
namespace Stencil

open Markup (Node Element)
open Registry (Grant Grants askedType settledType)

namespace Walk

/-- The attributes of the element that a target is told about. -/
def Call.attributes : Call → List Attribute
  | .openElement o _ => o.attributes
  | _ => []

mutual

theorem Step.mem_openings {o : Opening} {name : String} : (step : Step) →
    .openElement o name ∈ step.calls → o ∈ step.openings
  | .element first label inside, member => by
    unfold Step.calls at member
    rcases List.mem_cons.mp member with own | later
    · cases own
      exact List.mem_cons_self ..
    · split at later
      · cases later
      · have within : .openElement o name ∈ callsOf inside := by simpa using later
        exact List.mem_cons_of_mem first (mem_openingsOf inside within)
  | .text _, member => by simp [Step.calls] at member
  | .value _ _, member => by simp [Step.calls] at member
  | .condition _ inside, member => by
    have within : .openElement o name ∈ callsOf inside := by simpa [Step.calls] using member
    exact mem_openingsOf inside within

theorem mem_openingsOf {o : Opening} {name : String} : (steps : List Step) →
    .openElement o name ∈ callsOf steps → o ∈ openingsOf steps
  | [], member => by cases member
  | step :: rest, member => by
    unfold callsOf at member
    rcases List.mem_append.mp member with here | later
    · exact List.mem_append_left _ (Step.mem_openings step here)
    · exact List.mem_append_right _ (mem_openingsOf rest later)

end

theorem opening_of_mem_callsOf {a : Attribute} {steps : List Step}
    (member : a ∈ (callsOf steps).flatMap Call.attributes) : ∃ o ∈ openingsOf steps, a ∈ o.attributes := by
  obtain ⟨call, told, held⟩ := List.mem_flatMap.mp member
  cases call with
  | openElement o name => exact ⟨o, mem_openingsOf steps told, held⟩
  | closeElement | addText | addVariable | openCondition | closeCondition => cases held

end Walk

namespace Registry

theorem keys_foldl_reserve (r : Registry) (names : List String) :
    (names.foldl reserve r).keys = r.keys := by
  induction names generalizing r with
  | nil => rfl
  | cons first rest ih =>
    rw [List.foldl_cons, ih]
    unfold reserve
    split <;> rfl

end Registry

namespace Template

theorem start_keys (t : Template) (options : Option ComponentOptions) (roots : List Node)
    (format : Format) : (t.start options roots format).registry.keys = [] := by
  unfold start
  rw [show ∀ r d, (Draft.withRegistry r d).registry = r from Draft.target_lawful.registry_withRegistry,
    Registry.keys_foldl_reserve]
  unfold Draft.start
  split <;> rfl

/-- The run of a format that ends well: what it told the draft, and the calls to the registry. -/
theorem exists_grants {t : Template} {options : Option ComponentOptions} {roots : List Node}
    {rules : List Style.Rule} {format : Format} {files : FileMap}
    (compiled : (t.compileTo options roots rules format).outcome = .ok files) :
    ∃ draft calls grants, files = draft.files t.css (hasMultipleRoots roots) ∧
      (Walk.walk (t.context rules).recorded roots (t.start options roots format, [])).outcome =
        .ok ((), draft, calls) ∧
      Grants (t.start options roots format).registry grants draft.registry ∧
      grants.filterMap Grant.request? = requests roots ∧
      ∀ a ∈ calls.flatMap Walk.Call.attributes, a.Granted grants := by
  rw [compileTo_eq] at compiled
  obtain ⟨⟨_, draft⟩, walked, done⟩ := Reported.bind_eq_ok compiled
  cases done
  obtain ⟨steps, walks⟩ := Walk.Walks.of_walk roots walked
  obtain ⟨grants, made, asked, granted⟩ := walks.calls
  refine ⟨draft, Walk.callsOf steps, grants, rfl, (walks.recorded []).walk_eq_ok, made, asked, ?_⟩
  intro a member
  obtain ⟨o, opened, held⟩ := Walk.opening_of_mem_callsOf member
  exact granted o opened a held

/-- In a run that ends well, the type that a key is declared with is what the last marker asked for that
took the key over, or else the first call that returned it. Every binding of an attribute has its key
declared. If the template binds the name of the key itself and some marker asks for that name, the type
is that of the last such marker. Otherwise it is what the attribute renders, for all but ids; those are
texts, and declared so if all that was given or shares the key asked for a text. -/
theorem declared_types (t : Template) (options : Option ComponentOptions) (roots : List Node)
    (rules : List Style.Rule) (format : Format) {files : FileMap}
    (compiled : (t.compileTo options roots rules format).outcome = .ok files) :
    ∃ draft calls grants, files = draft.files t.css (hasMultipleRoots roots) ∧
      (Walk.walk (t.context rules).recorded roots (t.start options roots format, [])).outcome =
        .ok ((), draft, calls) ∧
      Grants (t.start options roots format).registry grants draft.registry ∧
      (∀ key, (draft.registry.get? key).map (·.type) = settledType key grants) ∧
      ∀ a ∈ calls.flatMap Walk.Call.attributes, ∀ b ∈ a.bindings, ∃ d,
        draft.registry.get? b.key = some d ∧
        ((∃ origin ∈ elements roots, Names origin b.key) →
          ∀ type, askedType b.key (requests roots) = some type → d.type = type) ∧
        ((∀ origin ∈ elements roots, ¬Names origin b.key) ∨ askedType b.key (requests roots) = none →
          a.isOfIds = false → d.type.declares b.type = true) ∧
        (a.isOfIds = true → b.type = .string ∧
          ((∀ g ∈ grants, g.key = b.key → g.definition.type = .string) → d.type = .string)) := by
  obtain ⟨draft, calls, grants, written, told, made, asked, granted⟩ := exists_grants compiled
  have settled : ∀ key, (draft.registry.get? key).map (·.type) = settledType key grants := by
    intro key
    apply made.type_of_new
    simp [Registry.get?, start_keys]
  refine ⟨draft, calls, grants, written, told, made, settled, ?_⟩
  intro a member b bound
  obtain ⟨g, given, fits, shared, ids⟩ := granted a member b bound
  have registered : b.key ∈ draft.registry.names := fits.key ▸ made.mem_names given
  obtain ⟨d, found⟩ := Registry.exists_get?_of_mem registered
  have declared : ∀ type, (draft.registry.get? b.key).map (·.type) = some type → d.type = type := by
    intro type same
    simpa [found] using same
  refine ⟨d, found, ?_, ?_, ?_⟩
  · rintro ⟨origin, inside, named⟩ type last
    have reserved := mem_start_reserved t options format inside named
    exact declared type (made.type_of_asked reserved (asked ▸ last))
  · intro unasked plain
    have alone : g.key ∉ (t.start options roots format).registry.reserved ∨
        askedType g.key (grants.filterMap Grant.request?) = none := by
      rw [fits.key, asked]
      refine unasked.imp_left fun unnamed reserved => ?_
      obtain ⟨origin, inside, named⟩ := exists_names_of_mem_start_reserved t options format reserved
      exact unnamed origin inside named
    have own : g.entry ≠ .share := by
      rw [Ne, shared, plain]
      decide
    have type := made.type_of_unasked given own alone
    rw [fits.key] at type
    rw [declared _ type]
    exact fits.type
  · intro ofIds
    refine ⟨ids ofIds, fun all => ?_⟩
    exact declared _ ((settled b.key).trans (Registry.settledType_of_all all given fits.key))

/-- Two markers of a name that a condition binds: both are declared as the second. -/
theorem declared_types_last_marker :
    let t : Template := { id := "card", html := "" }
    let roots : List Node := [.element { tag := conditionTag, attrs := [⟨"key", "size"⟩] } [],
      .element { tag := "p", attrs := [⟨"class", "\x7b\x7b size: x as s | y as l \x7d\x7d"⟩] } [],
      .element { tag := "p", attrs := [⟨"title", "\x7b\x7b size \x7d\x7d"⟩] } []]
    ∃ files draft calls d, (t.compileTo none roots [] .reactTs).outcome = .ok files ∧
      files = draft.files "" true ∧
      (Walk.walk (t.context []).recorded roots (t.start none roots .reactTs, [])).outcome =
        .ok ((), draft, calls) ∧
      (calls.flatMap Walk.Call.attributes).flatMap (·.bindings) =
        [{ key := "size", optional := false, type := .enumeration [⟨"x", "s"⟩, ⟨"y", "l"⟩] },
          { key := "size", optional := false, type := .string }] ∧
      draft.registry.get? "size" = some d ∧ d.type = .string := by
  intro t roots
  have ended : (t.compileTo none roots [] .reactTs).outcome.toOption.isSome = true := by decide +kernel
  obtain ⟨files, ended⟩ := Option.isSome_iff_exists.mp ended
  have compiled := ok_of_toOption ended
  obtain ⟨draft, calls, grants, written, told, -, -, declared⟩ :=
    declared_types t none roots [] .reactTs compiled
  have shown : ((Walk.walk (t.context []).recorded roots
        (t.start none roots .reactTs, [])).outcome.toOption.map fun run =>
          (run.2.2.flatMap Walk.Call.attributes).flatMap (·.bindings)) =
      some [{ key := "size", optional := false, type := .enumeration [⟨"x", "s"⟩, ⟨"y", "l"⟩] },
          { key := "size", optional := false, type := .string }] := by decide +kernel
  rw [told] at shown
  have bindings := Option.some.inj shown
  have member : ({ key := "size", optional := false, type := .string } : Binding) ∈
      (calls.flatMap Walk.Call.attributes).flatMap (·.bindings) := by
    rw [show (calls.flatMap Walk.Call.attributes).flatMap (·.bindings) = _ from bindings]
    decide
  obtain ⟨a, inside, bound⟩ := List.mem_flatMap.mp member
  obtain ⟨d, found, asked, -⟩ := declared a inside _ bound
  refine ⟨files, draft, calls, d, compiled, written, told, bindings, found, ?_⟩
  exact asked ⟨_, List.mem_cons_self .., by decide, Or.inr ⟨rfl, by decide⟩⟩ _ (by decide +kernel)

/-- An id that shares the key of a variable, and a marker whose key a later one took over: the key is not
declared as the attribute renders it. -/
theorem declared_types_differ :
    let t : Template := { id := "card", html := "" }
    let agree (roots : List Node) : Option Bool :=
      (Walk.walk (t.context []).recorded roots (t.start none roots .reactTs, [])).outcome.toOption.map
        fun run => (run.2.2.flatMap Walk.Call.attributes).all fun a =>
          a.bindings.all fun b => (run.2.1.registry.get? b.key).any (·.type.declares b.type)
    agree [.element { tag := variableTag, attrs := [⟨"key", "children"⟩] } [],
        .element { tag := "p", attrs := [⟨"id", "children"⟩] } []] = some false ∧
      agree [.element { tag := conditionTag, attrs := [⟨"key", "size"⟩] } [],
        .element { tag := "p", attrs := [⟨"class", "\x7b\x7b size: x as s | y as l \x7d\x7d"⟩] } [],
        .element { tag := "p", attrs := [⟨"title", "\x7b\x7b size \x7d\x7d"⟩] } []] = some false := by
  decide +kernel

end Template

end Stencil
