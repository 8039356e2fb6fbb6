import Stencil.Proofs.RegistryGrowth

/-! The passes over the attributes of an element, and what they leave of the types of bindings. A binding
comes from a marker, from an id or from the defaults of a tag, and of these only a marker with one option
has a literal. -/
namespace Stencil

namespace Marker

theorem keyType_of_ifTrue {m : Marker} (plain : KeyType) (literal : m.ifTrue.isSome = true) :
    m.keyType plain = .boolean := by
  unfold ifTrue at literal
  unfold keyType
  split at literal
  · rename_i only options
    rw [options]
  · cases literal

theorem keyType_cases (m : Marker) (plain : KeyType) :
    m.keyType plain = plain ∨ m.keyType plain = .boolean ∨ (m.keyType plain).options?.isSome = true := by
  unfold keyType
  split
  · exact Or.inl rfl
  · exact Or.inr (Or.inr rfl)
  · exact Or.inr (Or.inl rfl)

/-- A registered marker keeps its type and its literal. -/
theorem of_mem_registerAll {plain : KeyType} {tag : String} {markers : List Marker} {r r' : Registry}
    {bindings : List Binding} (done : registerAll plain tag markers r = .ok (bindings, r')) {b : Binding}
    (member : b ∈ bindings) : ∃ m ∈ markers, b.type = m.keyType plain ∧ b.ifTrue = m.ifTrue := by
  induction markers generalizing r bindings with
  | nil =>
    cases done
    cases member
  | cons m rest ih =>
    obtain ⟨binding, middle, others, first, later, rfl⟩ := registerAll_cons done
    rcases List.mem_cons.mp member with rfl | inside
    · obtain ⟨key, -, rfl⟩ := called_of_register first
      exact ⟨m, List.mem_cons_self .., rfl, rfl⟩
    · obtain ⟨origin, known, same⟩ := ih later inside
      exact ⟨origin, List.mem_cons_of_mem m known, same⟩

end Marker

namespace Attribute

open Markup (Access AccessM)

variable {σ : Type} {access : Access σ} {tag : String}

theorem onNode_eq_ok {α : Type} {x : AccessM σ α} {s t : Compiling σ} {a : α}
    (done : onNode x s = (.ok a, t)) : ∃ node, x s.node = (.ok a, node) ∧ t = { s with node } := by
  unfold onNode at done
  split at done
  · rename_i b node ended
    cases done
    exact ⟨node, ended, rfl⟩
  · cases done

theorem onRegistry_eq_ok {α ε : Type} {wrap : ε → AttributeError} {f : Registry → Except ε (α × Registry)}
    {s t : Compiling σ} {a : α} (done : onRegistry wrap f s = (.ok a, t)) :
    ∃ registry, f s.registry = .ok (a, registry) ∧ t = { s with registry } := by
  unfold onRegistry at done
  split at done
  · rename_i registry called
    cases done
    exact ⟨registry, called, rfl⟩
  · cases done

/-- One authored attribute: its value is read, then the attributes after it. -/
theorem authored_cons {name : String} {rest : List String} {s s' : Compiling σ}
    {attributes : List Attribute}
    (done : authored access tag (name :: rest) s = (.ok attributes, s')) :
    ∃ raw t text bindings registry later, onNode (access.read name) s = (.ok raw, t) ∧
      readValue raw tag (plainType name) t.registry = .ok ((text, bindings), registry) ∧
      authored access tag rest { t with registry } = (.ok later, s') ∧
      attributes =
        { name, text, type := dataTypeFor tag name, bindings, omittedIfEmpty := false } :: later := by
  obtain ⟨raw, t, read, done⟩ := bind_eq_ok done
  obtain ⟨⟨text, bindings⟩, u, valued, done⟩ := bind_eq_ok done
  obtain ⟨later, v, rest, done⟩ := bind_eq_ok done
  cases done
  obtain ⟨registry, known, rfl⟩ := onRegistry_eq_ok valued
  exact ⟨raw, t, text, bindings, registry, later, read, known, rest, rfl⟩

theorem idBindings_cons {a : Attribute} {id : String} {rest : List String} {s s' : Compiling σ}
    {bindings : List Binding} (done : idBindings a tag (id :: rest) s = (.ok bindings, s')) :
    ∃ key registry later,
      s.registry.share (Text.camelCase id) { type := .string, optional := true, tag := some tag } =
        .ok (key, registry) ∧
      idBindings a tag rest { s with registry } = (.ok later, s') ∧
      bindings = { key, optional := true, type := .string } :: later := by
  unfold idBindings at done
  dsimp only at done
  split at done
  · cases done
  · obtain ⟨key, t, shared, done⟩ := bind_eq_ok done
    obtain ⟨later, u, bound, done⟩ := bind_eq_ok done
    cases done
    obtain ⟨registry, called, rfl⟩ := onRegistry_eq_ok shared
    exact ⟨key, registry, later, called, bound, rfl⟩

/-- An attribute without ids is left alone; otherwise bindings take the place of its ids. -/
theorem bindIds_cons {id : String} {rest : List String} {attributes bound : List Attribute}
    {s s' : Compiling σ} (done : bindIds tag (id :: rest) attributes s = (.ok bound, s')) :
    (bindIds tag rest attributes s = (.ok bound, s') ∧ ∀ a, find? attributes id = some a → a.text = "") ∨
      ∃ bearer bindings t, find? attributes id = some bearer ∧ bearer.name = id ∧ bearer.text ≠ "" ∧
        idBindings bearer tag (Text.words bearer.text) s = (.ok bindings, t) ∧
        bindIds tag rest (put attributes
          { bearer with text := "", type := .string, bindings, omittedIfEmpty := true }) t = (.ok bound, s') := by
  unfold bindIds at done
  cases known : find? attributes id with
  | none =>
    rw [known] at done
    exact .inl ⟨done, by simp⟩
  | some bearer =>
    rw [known] at done
    dsimp only at done
    split at done
    · rename_i empty
      exact .inl ⟨done, by simpa using empty⟩
    · rename_i filled
      obtain ⟨bindings, t, tied, done⟩ := bind_eq_ok done
      have own : bearer.name = id := by simpa using List.find?_some known
      exact .inr ⟨bearer, bindings, t, rfl, own, by simpa using filled, tied, done⟩

/-- The three passes over the attributes of an element. -/
theorem compileAll_eq_ok {s after : Compiling σ} {full : List Attribute}
    (done : compileAll access tag s = (.ok full, after)) :
    ∃ names start written t bound u, onNode access.attributeNames s = (.ok names, start) ∧
      authored access tag (sortNames names) start = (.ok written, t) ∧
      bindIds tag idAttributes written t = (.ok bound, u) ∧
      withDefaults tag bound u = (.ok full, after) := by
  obtain ⟨names, start, named, passes⟩ := bind_eq_ok done
  obtain ⟨written, t, read, later⟩ := bind_eq_ok passes
  obtain ⟨bound, u, tied, last⟩ := bind_eq_ok later
  obtain ⟨offered, v, completed, distinct⟩ := bind_eq_ok last
  cases again : repeated? [] (offered.map (·.name)) with
  | some name =>
    rw [again] at distinct
    cases distinct
  | none =>
    rw [again] at distinct
    cases distinct
    exact ⟨names, start, written, t, bound, u, named, read, tied, completed⟩

theorem withDefaults_eq_ok {attributes full : List Attribute} {s s' : Compiling σ}
    (done : withDefaults tag attributes s = (.ok full, s')) :
    ∃ offered, Default.applyAll tag (Default.forTag tag attributes) attributes s.registry =
        (.ok offered, s'.registry) ∧
      full = Default.omitEmptyLimit tag (Default.literal? attributes "type") offered := by
  unfold withDefaults at done
  split at done
  · cases done
  · rename_i offered registry applied
    cases done
    exact ⟨offered, applied, rfl⟩

theorem compile_eq_ok {template : String} {s after : Compiling σ} {full : List Attribute}
    (done : compile access tag template s = (.ok full, after)) :
    compileAll access (Text.toLowerAscii tag) s = (.ok full, after) := by
  unfold compile at done
  split at done
  · rename_i attributes t ended
    cases done
    exact ended
  · cases done

/-- Only a flag has a literal, and a class binds texts, flags and choices. -/
structure Typed (a : Attribute) : Prop where
  literal : ∀ b ∈ a.bindings, b.ifTrue.isSome = true → b.type = .boolean
  ofClass : a.name = "class" → ∀ b ∈ a.bindings,
    b.type = .string ∨ b.type = .boolean ∨ b.type.options?.isSome = true

theorem mem_put {attributes : List Attribute} {a b : Attribute} (member : b ∈ put attributes a) :
    b = a ∨ b ∈ attributes := by
  induction attributes with
  | nil => exact Or.inl (List.mem_singleton.mp member)
  | cons first rest ih =>
    unfold put at member
    split at member
    · rcases List.mem_cons.mp member with new | old
      · exact Or.inl new
      · exact Or.inr (List.mem_cons_of_mem first old)
    · rcases List.mem_cons.mp member with rfl | later
      · exact Or.inr (List.mem_cons_self ..)
      · exact (ih later).imp_right (List.mem_cons_of_mem first)

theorem typed_put {attributes : List Attribute} {a : Attribute} (all : ∀ b ∈ attributes, b.Typed)
    (new : a.Typed) : ∀ b ∈ put attributes a, b.Typed := by
  intro b member
  rcases mem_put member with rfl | old
  · exact new
  · exact all b old

theorem typed_authored {names : List String} {s s' : Compiling σ} {attributes : List Attribute}
    (done : authored access tag names s = (.ok attributes, s')) : ∀ a ∈ attributes, a.Typed := by
  induction names generalizing s attributes with
  | nil =>
    cases done
    simp
  | cons name rest ih =>
    obtain ⟨raw, t, text, bindings, registry, later, -, valued, further, rfl⟩ := authored_cons done
    obtain ⟨markers, -, registered⟩ := readValue_eq_ok valued
    intro a member
    rcases List.mem_cons.mp member with rfl | inside
    · constructor
      · intro b bound literal
        obtain ⟨m, -, type, ifTrue⟩ := Marker.of_mem_registerAll registered bound
        rw [type, Marker.keyType_of_ifTrue _ (ifTrue ▸ literal)]
      · rintro rfl b bound
        obtain ⟨m, -, type, -⟩ := Marker.of_mem_registerAll registered bound
        rw [type]
        exact m.keyType_cases .string
    · exact ih further a inside

theorem type_of_mem_idBindings {a : Attribute} {ids : List String} {s s' : Compiling σ}
    {bindings : List Binding} (done : idBindings a tag ids s = (.ok bindings, s')) :
    ∀ b ∈ bindings, b.type = .string ∧ b.ifTrue = none := by
  induction ids generalizing s bindings with
  | nil =>
    cases done
    simp
  | cons id rest ih =>
    obtain ⟨key, registry, later, -, bound, rfl⟩ := idBindings_cons done
    intro b member
    rcases List.mem_cons.mp member with rfl | inside
    · exact ⟨rfl, rfl⟩
    · exact ih bound b inside

theorem typed_bindIds {ids : List String} {attributes bound : List Attribute} {s s' : Compiling σ}
    (all : ∀ a ∈ attributes, a.Typed) (done : bindIds tag ids attributes s = (.ok bound, s')) :
    ∀ a ∈ bound, a.Typed := by
  induction ids generalizing attributes s with
  | nil =>
    cases done
    exact all
  | cons id rest ih =>
    obtain ⟨done, -⟩ | ⟨bearer, bindings, t, -, -, -, tied, done⟩ := bindIds_cons done
    · exact ih all done
    · refine ih (typed_put all ⟨?_, ?_⟩) done
      · intro b member literal
        rw [(type_of_mem_idBindings tied b member).2] at literal
        cases literal
      · intro _ b member
        exact Or.inl (type_of_mem_idBindings tied b member).1

end Attribute

namespace Default

theorem attributeName_literalText (name literal : String) (optional : Bool) :
    (literalText name literal optional).attributeName = name := by
  unfold literalText
  split <;> rfl

/-- The names of the attributes that some tag offers. -/
def offeredNames : List String :=
  ["lang", "href", "rel", "name", "http-equiv", "charset", "content", "open", "disabled", "readonly",
    "autofocus", "value", "checked", "min", "max", "type", "spellcheck", "maxlength", "autocomplete",
    "rows", "cols", "multiple", "selected", "target", "title", "datetime", "src", "width", "height",
    "srcset", "crossorigin", "poster", "controls", "autoplay", "muted", "preload", "loop", "allow",
    "allowfullscreen", "allowpaymentrequest", "colspan", "rowspan"]

/-- All that an input can offer, in its order. -/
def inputNames : List String :=
  ["disabled", "readonly", "autofocus", "name"] ++ ["value"] ++ ["checked"] ++
    (["min", "max"] ++ ["type"] ++ ["spellcheck"] ++ ["maxlength"] ++ ["autocomplete"])

theorem names_forInput (name value : String) (type : Option String) (limited : Bool) :
    ((forInput name value type limited).map (·.attributeName)).Sublist inputNames := by
  unfold forInput inputNames
  simp only [List.map_append]
  refine ((List.Sublist.append ?_ ?_).append ?_).append ?_
  · simp [flag, attributeName_literalText]
  · split <;> simp [attributeName_literalText]
  · split <;> simp [flag]
  · split
    · simp only [List.map_append]
      refine ((((List.Sublist.append ?_ ?_).append ?_).append ?_).append ?_)
      · split <;> simp [number]
      · split <;> simp [named]
      · simp [flag]
      · split <;> simp [number]
      · simp [named]
    · simp

theorem offered_of_mem_forInput {name value : String} {type : Option String} {limited : Bool} {d : Default}
    (member : d ∈ forInput name value type limited) : d.attributeName ∈ offeredNames := by
  have known : inputNames ⊆ offeredNames := by decide
  exact known ((names_forInput name value type limited).subset (List.mem_map_of_mem member))

theorem offered_of_mem_forTag (tag : String) (attributes : List Attribute) :
    ∀ d ∈ forTag tag attributes, d.attributeName ∈ offeredNames := by
  unfold forTag
  split
  case h_5 => exact fun d => offered_of_mem_forInput
  all_goals decide

/-- No tag offers a class. -/
theorem not_class_of_mem_forTag (tag : String) (attributes : List Attribute) :
    ∀ d ∈ forTag tag attributes, d.attributeName ≠ "class" := by
  intro d member same
  have offered := offered_of_mem_forTag tag attributes d member
  rw [same] at offered
  revert offered
  decide

theorem typed_apply {d : Default} {tag : String} {attributes full : List Attribute} {r r' : Registry}
    (other : d.attributeName ≠ "class") (all : ∀ a ∈ attributes, a.Typed)
    (done : d.apply tag attributes r = .ok (full, r')) : ∀ a ∈ full, a.Typed := by
  rcases apply_cases done with ⟨-, rfl, rfl⟩ | ⟨-, key, -, rfl⟩
  · exact all
  · refine Attribute.typed_put all ⟨?_, ?_⟩
    · simp [replacement]
    · intro same
      exact absurd same other

theorem typed_applyAll {tag : String} {defaults : List Default} {attributes full : List Attribute}
    {r r' : Registry} (others : ∀ d ∈ defaults, d.attributeName ≠ "class")
    (all : ∀ a ∈ attributes, a.Typed) (done : applyAll tag defaults attributes r = (.ok full, r')) :
    ∀ a ∈ full, a.Typed := by
  induction defaults generalizing attributes r with
  | nil =>
    cases done
    exact all
  | cons d rest ih =>
    obtain ⟨next, after, applied, done⟩ := applyAll_cons done
    have first := typed_apply (others d (List.mem_cons_self ..)) all applied
    exact ih (fun later member => others later (List.mem_cons_of_mem d member)) first done

theorem typed_omitEmptyLimit {tag : String} {type : Option String} {attributes : List Attribute}
    (all : ∀ a ∈ attributes, a.Typed) : ∀ a ∈ omitEmptyLimit tag type attributes, a.Typed := by
  unfold omitEmptyLimit
  split
  · rename_i limit known
    have typed := all limit (List.mem_of_find?_eq_some known)
    split
    · exact Attribute.typed_put all ⟨typed.literal, typed.ofClass⟩
    · exact all
  · exact all

end Default

namespace Attribute

open Markup (Access)

theorem typed_compile {σ : Type} {access : Access σ} {tag template : String} {s after : Compiling σ}
    {full : List Attribute} (done : compile access tag template s = (.ok full, after)) :
    ∀ a ∈ full, a.Typed := by
  obtain ⟨names, start, written, t, bound, u, -, read, tied, completed⟩ :=
    compileAll_eq_ok (compile_eq_ok done)
  have typed := typed_bindIds (typed_authored read) tied
  obtain ⟨offered, applied, rfl⟩ := withDefaults_eq_ok completed
  exact Default.typed_omitEmptyLimit
    (Default.typed_applyAll (Default.not_class_of_mem_forTag _ bound) typed applied)

end Attribute

end Stencil
