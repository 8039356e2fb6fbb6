import Stencil.Proofs.CompiledShape

/-! What an input offers. Its type says which attributes come behind those that its author wrote; the name of
the input always becomes a key, unless the author bound it, and the length limit of a text box is left out
when it is empty. -/
namespace Stencil

open Markup (Access Element)
open Registry (Later)

namespace Markup.Element

/-- The text and the markers in the value of an attribute. There are none if the element does not have the
attribute or a marker in it cannot be read. -/
def parsed? (e : Element) (name : String) : Option (String × List Marker) :=
  if name ∈ e.attrs.map (·.name) then (Marker.parse (e.authored name)).toOption else none

def text? (e : Element) (name : String) : Option String := (e.parsed? name).map (·.1)

def markers (e : Element) (name : String) : List Marker := ((e.parsed? name).map (·.2)).getD []

end Markup.Element

namespace Default

variable {tag : String} {attributes full : List Attribute} {r r' : Registry}

/-- The attributes of an input of a type, in their order. -/
def inputOffers (type : Option String) : List String :=
  ["disabled", "readonly", "autofocus", "name"] ++
  (if type = some "file" then [] else ["value"]) ++
  (if type = some "radio" ∨ type = some "checkbox" then ["checked"]
  else if type = some "file" then []
  else
    (if type = none ∨ type = some "number" then ["min", "max"] else []) ++
    (if type = none then ["type"] else []) ++
    ["spellcheck"] ++
    (if type = none ∨ type ∈ ["text", "email", "search", "password", "tel", "url"].map some then ["maxlength"]
    else []) ++
    ["autocomplete"])

theorem forTag_input (attributes : List Attribute) : forTag "input" attributes =
    forInput ((literal? attributes "name").getD "") ((literal? attributes "value").getD "")
      (literal? attributes "type") (literal? attributes "maxlength").isSome := rfl

theorem isNameOptional_eq (type : Option String) :
    isNameOptional type = decide (type ∈ [some "submit", some "image", some "button"]) := by
  cases type <;> simp [isNameOptional, buttonInputTypes]

theorem isTextBox_iff (type : Option String) :
    isTextBox type = true ↔ type ∉ [some "radio", some "checkbox", some "file"] := by
  cases type <;> simp [isTextBox]

theorem hasLengthLimit_iff (type : Option String) :
    hasLengthLimit type = true ↔
      type = none ∨ type ∈ ["text", "email", "search", "password", "tel", "url"].map some := by
  cases type <;> simp [hasLengthLimit, lengthLimitedTypes]

theorem literalText_eq (name literal : String) (optional : Bool) : literalText name literal optional =
    ⟨name, if literal = "" then Text.camelCase name else literalKey literal, .string, .string, optional⟩ := by
  unfold literalText
  by_cases empty : literal = "" <;> simp [empty, text]

/-- What an input offers by its type; only a length limit that is there already is not among it. -/
theorem names_forInput_eq (name value : String) (type : Option String) (limited : Bool) :
    (forInput name value type limited).map (·.attributeName) =
      (inputOffers type).filter fun offer => !(limited && offer == "maxlength") := by
  unfold forInput inputOffers
  by_cases file : type = some "file"
  · subst file
    simp [isTextBox, flag, attributeName_literalText]
  · by_cases choice : type = some "radio" ∨ type = some "checkbox"
    · rcases choice with rfl | rfl <;> simp [isTextBox, flag, attributeName_literalText]
    · have box : isTextBox type = true := by
        rw [isTextBox_iff]
        simpa [file] using choice
      simp only [← hasLengthLimit_iff, box, if_neg file, if_neg choice]
      cases limited <;>
        simp [file, choice, flag, number, named, attributeName_literalText, apply_ite (List.map _),
          apply_ite (List.filter _)]

theorem get?_applyAll {defaults : List Default} {key : String} (known : key ∈ r.names)
    (done : applyAll tag defaults attributes r = (.ok full, r')) : r'.get? key = r.get? key := by
  induction defaults generalizing attributes r with
  | nil =>
    cases done
    rfl
  | cons d rest ih =>
    obtain ⟨next, middle, applied, done⟩ := applyAll_cons done
    rw [ih ((apply_later applied).names.subset known) done]
    rcases apply_cases applied with ⟨-, rfl, rfl⟩ | ⟨-, new, called, rfl⟩
    · rfl
    · obtain ⟨-, free, rfl⟩ := Registry.register_cases called
      have other : key ≠ new := fun same => free (same ▸ known)
      rw [Registry.get?_append free, if_neg other]

/-- A default whose attribute is not bound registers its key, at some point between the two registries, and
puts its own attribute in place. -/
theorem applyAll_of_mem {defaults : List Default} (once : (defaults.map (·.attributeName)).Nodup) {d : Default}
    (member : d ∈ defaults) (free : isBound attributes d.attributeName = false)
    (done : applyAll tag defaults attributes r = (.ok full, r')) :
    let definition : KeyDefinition := { type := d.registered, optional := d.optional, tag := some tag }
    ∃ key before after, Later r before ∧ before.register d.key definition = .ok (key, after) ∧
      Later after r' ∧ r'.get? key = some definition ∧
      Attribute.find? full d.attributeName = some (d.replacement tag key) := by
  intro definition
  induction defaults generalizing attributes r with
  | nil => cases member
  | cons first rest ih =>
    rw [List.map_cons, List.nodup_cons] at once
    obtain ⟨next, middle, applied, done⟩ := applyAll_cons done
    rcases List.mem_cons.mp member with rfl | later
    · rcases apply_cases applied with ⟨bound, -⟩ | ⟨-, key, called, rfl⟩
      · exact absurd (free.symm.trans bound) Bool.false_ne_true
      have others : ∀ other ∈ rest, other.attributeName ≠ d.attributeName := fun other inside same =>
        once.1 (same ▸ List.mem_map_of_mem inside)
      have grown := applyAll_later tag rest (Attribute.put attributes (d.replacement tag key)) middle
      rw [done] at grown
      obtain ⟨-, new, rfl⟩ := Registry.register_cases called
      refine ⟨key, r, _, .refl r, called, grown, ?_, ?_⟩
      · rw [get?_applyAll (by simp [Registry.names]) done, Registry.get?_append new, if_pos rfl]
      · rw [Attribute.find?_applyAll_of_other others done, Attribute.find?_put]
        exact if_pos rfl
    · have apart : first.attributeName ≠ d.attributeName := fun same =>
        once.1 (same ▸ List.mem_map_of_mem later)
      have kept := Attribute.find?_apply_of_other apart applied
      obtain ⟨key, before, after, earlier, there⟩ := ih once.2 later (by rwa [isBound, kept]) done
      exact ⟨key, before, after, (apply_later applied).trans earlier, there⟩

theorem omitted_of_mem_omitEmptyLimit {type : Option String} (once : (attributes.map (·.name)).Nodup)
    (box : isTextBox type = true) {a : Attribute} (member : a ∈ omitEmptyLimit "input" type attributes)
    (limit : a.name = "maxlength") : a.omittedIfEmpty = true := by
  have names : (omitEmptyLimit "input" type attributes).map (·.name) = attributes.map (·.name) :=
    names_omitEmptyLimit type
  have found := Attribute.find?_of_mem (names ▸ once) member
  have listed : a.name ∈ attributes.map (·.name) := names ▸ List.mem_map_of_mem member
  obtain ⟨b, inside, same⟩ := List.mem_map.mp listed
  rw [← same, Attribute.find?_omitEmptyLimit (Attribute.find?_of_mem once inside)] at found
  rw [← Option.some.inj found]
  simp [Attribute.limited, box, same, limit]

end Default

namespace Attribute

open Default (literal? isBound inputOffers literalKey)

variable {σ : Type}

section

variable {bound full : List Attribute} {u after : Compiling σ}

/-- Behind the attributes that are there come those that the type of the input offers. -/
theorem names_input (completed : withDefaults "input" bound u = (.ok full, after)) :
    full.map (·.name) = bound.map (·.name) ++
      (inputOffers (literal? bound "type")).filter (· ∉ bound.map (·.name)) := by
  rw [names_withDefaults completed, Default.forTag_input, Default.names_forInput_eq, List.filter_filter]
  congr 1
  refine List.filter_congr fun name offered => ?_
  -- A limit that is not offered is not new either.
  by_cases limit : name = "maxlength"
  · subst limit
    have listed : (literal? bound "maxlength").isSome = true ↔ "maxlength" ∈ bound.map (·.name) := by
      simp [literal?, find?]
    by_cases known : "maxlength" ∈ bound.map (·.name)
    · rw [listed.mpr known]
      simp [known]
    · rw [Bool.eq_false_iff.mpr (mt listed.mp known)]
      simp
  · simp [limit]

/-- The name of an input becomes one key, unless it is bound. -/
theorem find?_name_input (free : isBound bound "name" = false)
    (completed : withDefaults "input" bound u = (.ok full, after)) :
    let label := (literal? bound "name").getD ""
    let definition : KeyDefinition :=
      { type := .string, optional := Default.isNameOptional (literal? bound "type"), tag := some "input" }
    ∃ a key r r', find? full "name" = some a ∧
      a.bindings = [{ key, optional := definition.optional, type := .string }] ∧ Later u.registry r ∧
      r.register (if label = "" then "name" else literalKey label) definition = .ok (key, r') ∧
      Later r' after.registry ∧ after.registry.get? key = some definition := by
  intro label definition
  obtain ⟨offered, applied, rfl⟩ := withDefaults_eq_ok completed
  have own := Default.literalText_eq "name" label definition.optional
  have member : Default.literalText "name" label definition.optional ∈ Default.forTag "input" bound := by
    rw [Default.forTag_input]
    simp [Default.forInput, label, definition]
  rw [own] at member
  obtain ⟨key, r, r', earlier, called, later, defined, found⟩ :=
    Default.applyAll_of_mem (Default.nodup_forTag "input" bound) member free applied
  refine ⟨_, key, r, r', find?_omitEmptyLimit found, rfl, earlier, ?_, later, defined⟩
  have camel : Text.camelCase "name" = "name" := by decide
  rw [← camel]
  exact called

theorem omitted_of_limit_input (once : (bound.map (·.name)).Nodup)
    (box : Default.isTextBox (literal? bound "type") = true)
    (completed : withDefaults "input" bound u = (.ok full, after)) :
    ∀ a ∈ full, a.name = "maxlength" → a.omittedIfEmpty = true := by
  have distinct := nodup_withDefaults once completed
  obtain ⟨offered, -, rfl⟩ := withDefaults_eq_ok completed
  rw [Default.names_omitEmptyLimit] at distinct
  intro a member limit
  exact Default.omitted_of_mem_omitEmptyLimit distinct box member limit

end

section

variable {access : Access σ} {e : Element} {states : σ → Prop} {tag : String} {written : List Attribute}
  {s t : Compiling σ}

/-- Reading finds the texts of the element, and as many bindings as there are markers. -/
theorem find?_authored (shown : access.Shows e states) (here : states s.node)
    (read : authored access tag (sortNames (e.attrs.map (·.name))) s = (.ok written, t)) (name : String) :
    (find? written name).map (fun a => (a.text, a.bindings.length)) =
      (e.parsed? name).map fun value => (value.1, value.2.length) := by
  have listed : name ∈ written.map (·.name) ↔ name ∈ e.attrs.map (·.name) := by
    rw [names_authored read]
    exact (List.mergeSort_perm ..).mem_iff
  cases found : find? written name with
  | none =>
    have absent : name ∉ written.map (·.name) := by simpa [find?] using found
    rw [Element.parsed?, if_neg (mt listed.mpr absent)]
    rfl
  | some a =>
    have own : a.name = name := by simpa using List.find?_some found
    obtain ⟨r, r', -, valued, -⟩ :=
      (isWritten_authored shown here read a (List.mem_of_find?_eq_some found)).value
    obtain ⟨markers, parsed, registered⟩ := readValue_eq_ok valued
    rw [Element.parsed?, if_pos (listed.mp (own ▸ name_mem_of_find? found)), ← own, parsed]
    simp [Except.toOption, Marker.length_registerAll registered]

theorem literal?_authored (shown : access.Shows e states) (here : states s.node)
    (read : authored access tag (sortNames (e.attrs.map (·.name))) s = (.ok written, t)) (name : String) :
    literal? written name = e.text? name := by
  have known := congrArg (Option.map Prod.fst) (find?_authored shown here read name)
  simpa [literal?, Element.text?, Function.comp_def] using known

theorem isBound_authored (shown : access.Shows e states) (here : states s.node)
    (read : authored access tag (sortNames (e.attrs.map (·.name))) s = (.ok written, t)) {name : String}
    (plain : e.markers name = []) : isBound written name = false := by
  have counts : (find? written name).map (·.bindings.length) = (e.parsed? name).map (·.2.length) := by
    simpa [Function.comp_def] using congrArg (Option.map Prod.snd) (find?_authored shown here read name)
  rw [isBound]
  cases found : find? written name with
  | none => rfl
  | some a =>
    cases parsed : e.parsed? name with
    | none => simp [found, parsed] at counts
    | some value =>
      have none : value.2 = [] := by simpa [Element.markers, parsed] using plain
      have empty : a.bindings = [] := by simpa [found, parsed, none] using counts
      simp [isStatic, empty]

end

/-- What compiling an input brings in, by the static text of its type. Behind the authored attributes come
those that the type offers and that were not authored, in their order. Unless its author bound it, the name
has one key, which buttons may leave out; it is registered under the authored name, or as `name` if that is
nothing, with a number behind it if that is taken. The length limit of a text box is left out when it is
empty. -/
theorem input_offers {access : Access σ} {e : Element} {states : σ → Prop} {s after : Compiling σ}
    {tag template : String} {full : List Attribute}
    (shown : access.Shows e states) (distinct : (e.attrs.map (·.name)).Nodup) (here : states s.node)
    (input : Text.toLowerAscii tag = "input") (done : compile access tag template s = (.ok full, after)) :
    let type := e.text? "type"
    let label := (e.text? "name").getD ""
    let asked := if label = "" then "name" else literalKey label
    let definition : KeyDefinition :=
      { type := .string, optional := decide (type ∈ [some "submit", some "image", some "button"]),
        tag := some "input" }
    full.map (·.name) = sortNames (e.attrs.map (·.name)) ++
      (inputOffers type).filter (· ∉ e.attrs.map (·.name)) ∧
    (e.markers "name" = [] → ∃ a key r r', find? full "name" = some a ∧
      a.bindings = [{ key, optional := definition.optional, type := .string }] ∧
      Later s.registry r ∧ r.register asked definition = .ok (key, r') ∧ Later r' after.registry ∧
      after.registry.get? key = some definition ∧
      ∃ n, key = FreshName.candidate (Text.trim asked) n ∧ key ∉ r.names ∧
        ∀ i < n, FreshName.candidate (Text.trim asked) i ∈ r.names) ∧
    (type ∉ [some "radio", some "checkbox", some "file"] →
      ∀ a ∈ full, a.name = "maxlength" → a.omittedIfEmpty = true) := by
  intro type label asked definition
  have passes := compile_eq_ok done
  rw [input] at passes
  obtain ⟨names, start, written, t, bound, u, named, read, tied, completed⟩ := compileAll_eq_ok passes
  obtain ⟨node, answered, rfl⟩ := onNode_eq_ok named
  obtain ⟨rfl, there⟩ := shown.names here answered
  have sorted : bound.map (·.name) = sortNames (e.attrs.map (·.name)) :=
    (names_bindIds tied).trans (names_authored read)
  have text : ∀ name ∉ idAttributes, literal? bound name = e.text? name := fun name other =>
    (literal?_bindIds other tied).trans (literal?_authored shown there read name)
  have typed : literal? bound "type" = type := text "type" (by decide)
  have labelled : literal? bound "name" = e.text? "name" := text "name" (by decide)
  refine ⟨?_, fun plain => ?_, fun box => ?_⟩
  · rw [names_input completed, typed, sorted]
    congr 1
    refine List.filter_congr fun name offered => ?_
    simp only [sortNames, (List.mergeSort_perm ..).mem_iff]
  · have free : isBound bound "name" = false := by
      rw [isBound, find?_bindIds_of_other (by decide) tied]
      exact isBound_authored shown there read plain
    obtain ⟨a, key, r, r', found, bindings, earlier, called, later, defined⟩ :=
      find?_name_input free completed
    rw [typed, Default.isNameOptional_eq] at bindings called defined
    rw [labelled] at called
    obtain ⟨picked, new, -⟩ := Registry.register_cases called
    obtain ⟨n, first, -, taken⟩ := FreshName.pick_spec r.names (Text.trim asked)
    -- The passes before the defaults only add to the registry.
    have grown := stepwise_grows.authored access "input" (sortNames (e.attrs.map (·.name))) { s with node }
    have further := stepwise_grows.bindIds "input" idAttributes written t
    rw [read] at grown
    rw [tied] at further
    exact ⟨a, key, r, r', found, bindings, grown.trans (further.trans earlier), called, later, defined, n,
      picked.trans first, new, taken⟩
  · refine omitted_of_limit_input ?_ ?_ completed
    · exact sorted ▸ (List.mergeSort_perm ..).nodup_iff.mpr distinct
    · rw [typed]
      exact (Default.isTextBox_iff type).mpr box

/-- An input of which only a bound length limit is written, where the key `name` is taken. -/
theorem input_offers_box :
    let field : Element := { tag := "input", attrs := [⟨"maxlength", "{{ limit }}"⟩] }
    let taken : Registry := { keys := [("name", { type := .string, optional := true, tag := none })] }
    let ended := compile Access.ofElement "INPUT" "card" { node := field, registry := taken }
    ∃ full, ended.1 = .ok full ∧
      full.map (·.name) = ["maxlength", "disabled", "readonly", "autofocus", "name", "value", "min", "max", "type",
        "spellcheck", "autocomplete"] ∧
      (∃ a key, find? full "name" = some a ∧
        a.bindings = [{ key, optional := false, type := .string }] ∧ key ≠ "name" ∧
        ended.2.registry.get? key = some { type := .string, optional := false, tag := some "input" }) ∧
      ∀ a ∈ full, a.name = "maxlength" → a.omittedIfEmpty = true := by
  intro field taken ended
  have some : ended.1.toOption.isSome = true := by decide +kernel
  obtain ⟨full, found⟩ := Option.isSome_iff_exists.mp some
  have done : ended = (.ok full, ended.2) := Prod.ext (ok_of_toOption found) rfl
  have untyped : field.text? "type" = none := by decide
  obtain ⟨names, named, limits⟩ := input_offers (shows_ofElement field) (by decide) rfl (by decide) done
  rw [untyped] at names named limits
  obtain ⟨a, key, r, r', present, bindings, earlier, -, -, defined, n, -, new, -⟩ := named (by decide)
  have known : "name" ∈ r.names := earlier.names.subset (by decide : "name" ∈ taken.names)
  refine ⟨full, ok_of_toOption found, names.trans (by decide +kernel), ⟨a, key, present, bindings, ?_, defined⟩,
    limits (by decide)⟩
  rintro rfl
  exact new known

end Attribute

end Stencil
