import Stencil.Proofs.Outcomes
import Stencil.Proofs.RegistryNaming
import Stencil.Template.Walk

/-! What compiling does to the registry. Each step of it, whether it ends well or not, leaves a registry
further on: the keys of markers, ids, defaults and handlers come behind the keys that are there, and what
the template binds stays reserved. -/
namespace Stencil

open Registry (Later)

namespace Registry

/-- A call that succeeds leaves a later registry. -/
theorem Entry.later (entry : Entry) {r r' : Registry} {name key : String} {d : KeyDefinition}
    (called : entry.call r name d = .ok (key, r')) : Later r r' := by
  by_cases blank : Text.trim name = ""
  · rw [entry.call_blank r d blank] at called
    cases called
  · obtain ⟨k, after, known, registers⟩ := entry.call_eq_ok r d blank
    rw [known] at called
    cases called
    exact registers.later

end Registry

namespace Marker

/-- A marker is bound to the key that is registered for it. -/
theorem called_of_register {m : Marker} {plain : KeyType} {tag : String} {r r' : Registry} {b : Binding}
    (done : m.register plain tag r = .ok (b, r')) : ∃ key,
      r.registerMarker m.key { type := m.keyType plain, optional := m.optional, tag := some tag } =
        .ok (key, r') ∧
      b = { key, optional := m.optional, type := m.keyType plain, ifTrue := m.ifTrue } := by
  simp only [register] at done
  split at done
  · cases done
  · rename_i key _ called
    cases done
    exact ⟨key, called, rfl⟩

theorem registerAll_cons {m : Marker} {rest : List Marker} {plain : KeyType} {tag : String} {r r' : Registry}
    {bindings : List Binding} (done : registerAll plain tag (m :: rest) r = .ok (bindings, r')) :
    ∃ binding middle others, m.register plain tag r = .ok (binding, middle) ∧
      registerAll plain tag rest middle = .ok (others, r') ∧ bindings = binding :: others := by
  obtain ⟨⟨binding, middle⟩, first, done⟩ := bind_eq_ok done
  obtain ⟨⟨others, last⟩, later, done⟩ := bind_eq_ok done
  cases done
  exact ⟨binding, middle, others, first, later, rfl⟩

theorem register_later {m : Marker} {plain : KeyType} {tag : String} {r r' : Registry}
    {binding : Binding} (done : m.register plain tag r = .ok (binding, r')) : Later r r' := by
  obtain ⟨key, called, -⟩ := called_of_register done
  exact Registry.Entry.later .registerMarker called

theorem registerAll_later {plain : KeyType} {tag : String} {markers : List Marker} {r r' : Registry}
    {bindings : List Binding} (done : registerAll plain tag markers r = .ok (bindings, r')) :
    Later r r' := by
  induction markers generalizing r bindings with
  | nil =>
    cases done
    exact Later.refl _
  | cons m rest ih =>
    obtain ⟨binding, middle, others, first, later, rfl⟩ := registerAll_cons done
    exact (register_later first).trans (ih later)

end Marker

namespace Attribute

variable {σ α β ε : Type}

/-- A property that the steps of the passes over authored attributes have, and whatever is made of such
steps in sequence. -/
structure Stepwise (P : {α : Type} → CompileM σ α → Prop) : Prop where
  pure {α : Type} (a : α) : P (Pure.pure a)
  bind {α β : Type} {x : CompileM σ α} {f : α → CompileM σ β} : P x → (∀ a, P (f a)) → P (x >>= f)
  node {α : Type} (x : Markup.AccessM σ α) : P (onNode x)
  value (name raw tag : String) (plain : KeyType) : P (onRegistry (.marker name) (readValue raw tag plain))
  unusable {α : Type} (name value : String) : P (throw (.unusableId name value) : CompileM σ α)
  share (name : String) (k : KeyDefinition) : P (onRegistry .registry (·.share name k))

namespace Stepwise

variable {P : {α : Type} → CompileM σ α → Prop} (steps : Stepwise P)

include steps

theorem authored (a : Markup.Access σ) (tag : String) (names : List String) :
    P (authored a tag names) := by
  induction names with
  | nil => exact steps.pure []
  | cons name rest ih =>
    refine steps.bind (steps.node _) fun raw => steps.bind (steps.value ..) fun value => ?_
    exact steps.bind ih fun later => steps.pure _

theorem idBindings (a : Attribute) (tag : String) (ids : List String) : P (idBindings a tag ids) := by
  induction ids with
  | nil => exact steps.pure []
  | cons id rest ih =>
    have bound := fun binding : String → Binding =>
      steps.bind (steps.share (Text.camelCase id) { type := .string, optional := true, tag := some tag })
        fun key => steps.bind ih fun later => steps.pure (binding key :: later)
    unfold Attribute.idBindings
    dsimp only
    split
    · exact steps.bind (steps.unusable ..) fun _ => bound _
    · exact bound _

theorem bindIds (tag : String) (names : List String) (attributes : List Attribute) :
    P (bindIds tag names attributes) := by
  induction names generalizing attributes with
  | nil => exact steps.pure attributes
  | cons name rest ih =>
    unfold Attribute.bindIds
    split
    · exact ih attributes
    · split
      · exact ih attributes
      · exact steps.bind (steps.idBindings ..) fun bindings => ih _

end Stepwise

/-- A computation after which the registry is further on, however it ends. -/
def Grows (x : CompileM σ α) : Prop := ∀ s, Later s.registry (x s).2.registry

theorem grows_pure (a : α) : Grows (pure a : CompileM σ α) := fun s => Later.refl s.registry

theorem grows_throw (e : AttributeError) : Grows (throw e : CompileM σ α) :=
  fun s => Later.refl s.registry

theorem bind_eq_ok {x : CompileM σ α} {f : α → CompileM σ β} {s u : Compiling σ} {b : β}
    (done : (x >>= f) s = (.ok b, u)) : ∃ a t, x s = (.ok a, t) ∧ f a t = (.ok b, u) := by
  rw [bind_apply] at done
  rcases ended : x s with ⟨e | a, t⟩ <;> rw [ended] at done
  · cases done
  · exact ⟨a, t, rfl, done⟩

theorem grows_bind {x : CompileM σ α} {f : α → CompileM σ β} (first : Grows x)
    (rest : ∀ a, Grows (f a)) : Grows (x >>= f) := by
  intro s
  have here := first s
  rw [bind_apply]
  rcases ended : x s with ⟨e | a, t⟩ <;> rw [ended] at here
  · exact here
  · exact here.trans (rest a t)

theorem grows_onNode (x : Markup.AccessM σ α) : Grows (onNode x) := by
  intro s
  unfold onNode
  split <;> exact Later.refl s.registry

theorem grows_onRegistry {wrap : ε → AttributeError} {f : Registry → Except ε (α × Registry)}
    (later : ∀ r a r', f r = .ok (a, r') → Later r r') : Grows (onRegistry wrap f : CompileM σ α) := by
  intro s
  unfold onRegistry
  split
  · rename_i a registry done
    exact later s.registry a registry done
  · exact Later.refl s.registry

/-- A value is parsed, and then its markers are registered. -/
theorem readValue_eq_ok {raw tag text : String} {plain : KeyType} {r r' : Registry} {bindings : List Binding}
    (done : readValue raw tag plain r = .ok ((text, bindings), r')) :
    ∃ markers, Marker.parse raw = .ok (text, markers) ∧
      Marker.registerAll plain tag markers r = .ok (bindings, r') := by
  obtain ⟨⟨own, markers⟩, parsed, done⟩ := Stencil.bind_eq_ok done
  obtain ⟨⟨bound, last⟩, registered, done⟩ := Stencil.bind_eq_ok done
  cases done
  exact ⟨markers, parsed, registered⟩

theorem readValue_later {raw tag : String} {plain : KeyType} {r r' : Registry}
    {value : String × List Binding} (done : readValue raw tag plain r = .ok (value, r')) : Later r r' := by
  obtain ⟨markers, -, registered⟩ := readValue_eq_ok done
  exact Marker.registerAll_later registered

theorem stepwise_grows : Stepwise (Grows (σ := σ)) where
  pure := grows_pure
  bind := grows_bind
  node := grows_onNode
  value _ _ _ _ := grows_onRegistry fun _ _ _ done => readValue_later done
  unusable _ _ := grows_throw _
  share _ _ := grows_onRegistry fun _ _ _ called => Registry.Entry.later .share called

end Attribute

namespace Default

/-- A default leaves a bound attribute alone; otherwise it registers its key and puts its attribute in
place. -/
theorem apply_cases {d : Default} {tag : String} {attributes full : List Attribute} {r r' : Registry}
    (done : d.apply tag attributes r = .ok (full, r')) :
    (isBound attributes d.attributeName = true ∧ full = attributes ∧ r' = r) ∨
      (isBound attributes d.attributeName = false ∧ ∃ key,
        r.register d.key { type := d.registered, optional := d.optional, tag := some tag } = .ok (key, r') ∧
        full = Attribute.put attributes (d.replacement tag key)) := by
  unfold apply at done
  split at done
  · rename_i bound
    cases done
    exact .inl ⟨bound, rfl, rfl⟩
  · rename_i free
    obtain ⟨⟨key, after⟩, called, done⟩ := bind_eq_ok done
    cases done
    exact .inr ⟨Bool.eq_false_iff.mpr free, key, called, rfl⟩

theorem applyAll_cons {d : Default} {rest : List Default} {tag : String} {attributes full : List Attribute}
    {r r' : Registry} (done : applyAll tag (d :: rest) attributes r = (.ok full, r')) :
    ∃ next middle, d.apply tag attributes r = .ok (next, middle) ∧
      applyAll tag rest next middle = (.ok full, r') := by
  unfold applyAll at done
  split at done
  · cases done
  · rename_i next middle applied
    exact ⟨next, middle, applied, done⟩

theorem apply_later {d : Default} {tag : String} {attributes full : List Attribute} {r r' : Registry}
    (done : d.apply tag attributes r = .ok (full, r')) : Later r r' := by
  rcases apply_cases done with ⟨-, rfl, rfl⟩ | ⟨-, key, called, rfl⟩
  · exact Later.refl _
  · exact Registry.Entry.later .register called

theorem applyAll_later (tag : String) (defaults : List Default) (attributes : List Attribute)
    (r : Registry) : Later r (applyAll tag defaults attributes r).2 := by
  induction defaults generalizing attributes r with
  | nil => exact Later.refl r
  | cons d rest ih =>
    unfold applyAll
    split
    · exact Later.refl r
    · rename_i full after done
      exact (apply_later done).trans (ih full after)

end Default

namespace Attribute

variable {σ : Type}

theorem grows_withDefaults (tag : String) (attributes : List Attribute) :
    Grows (withDefaults tag attributes : CompileM σ (List Attribute)) := by
  intro s
  have applied := Default.applyAll_later tag (Default.forTag tag attributes) attributes s.registry
  unfold withDefaults
  split <;> rename_i ended <;> rw [ended] at applied <;> exact applied

theorem grows_compileAll (a : Markup.Access σ) (tag : String) : Grows (compileAll a tag) := by
  refine grows_bind (grows_onNode _) fun names => grows_bind (stepwise_grows.authored a tag _) fun authored => ?_
  refine grows_bind (stepwise_grows.bindIds tag _ authored) fun bound => ?_
  refine grows_bind (grows_withDefaults tag bound) fun full => ?_
  split
  · exact grows_throw _
  · exact grows_pure _

theorem compile_later (a : Markup.Access σ) (tag template : String) (s : Compiling σ) :
    Later s.registry (compile a tag template s).2.registry := by
  have grown := grows_compileAll a (Text.toLowerAscii tag) s
  unfold compile
  split <;> rename_i ended <;> rw [ended] at grown <;> exact grown

end Attribute

namespace Component.Draft

theorem handlers_cons {tag : String} {first : String × KeyType} {rest : List (String × KeyType)}
    {r r' : Registry} {added : List Attribute} (done : handlers tag (first :: rest) r = .ok (added, r')) :
    ∃ key middle later,
      r.register first.1 { type := first.2, optional := true, tag := some tag } = .ok (key, middle) ∧
      handlers tag rest middle = .ok (later, r') ∧
      added = { name := first.1, text := "", type := .function,
                bindings := [{ key, optional := true, type := first.2 }], omittedIfEmpty := false } :: later := by
  obtain ⟨⟨a, middle⟩, here, done⟩ := bind_eq_ok done
  obtain ⟨⟨later, last⟩, further, done⟩ := bind_eq_ok done
  cases done
  unfold handler at here
  split at here
  · cases here
  · rename_i key after called
    cases here
    exact ⟨key, middle, later, called, further, rfl⟩

theorem handlers_later {tag : String} {wanted : List (String × KeyType)} {r r' : Registry}
    {added : List Attribute} (done : handlers tag wanted r = .ok (added, r')) : Later r r' := by
  induction wanted generalizing r added with
  | nil =>
    cases done
    exact Later.refl _
  | cons first rest ih =>
    obtain ⟨key, middle, others, called, later, rfl⟩ := handlers_cons done
    exact (Registry.Entry.later .register called).trans (ih later)

theorem names_handlers {tag : String} {wanted : List (String × KeyType)} {r r' : Registry}
    {added : List Attribute} (done : handlers tag wanted r = .ok (added, r')) :
    added.map (·.name) = wanted.map (·.1) := by
  induction wanted generalizing r added with
  | nil =>
    cases done
    rfl
  | cons first rest ih =>
    obtain ⟨key, middle, others, -, later, rfl⟩ := handlers_cons done
    rw [List.map_cons, List.map_cons, ih later]

theorem styleElement_registry (d : Draft) (tagName tag : String) (rules : StyledRules) :
    (d.styleElement tagName tag rules).2.registry = d.registry := by
  unfold styleElement
  split <;> rfl

/-- An element that opens well: its handlers are registered, it is styled with them, and what is not left to
its style is written. -/
theorem styled_of_openElement {d d' : Draft} {tag name : String} {attributes : List Attribute}
    {rules : List Style.Rule} {selfClosing : Bool}
    (done : (d.openElement tag attributes rules selfClosing).outcome = .ok (name, d')) :
    ∃ added registry props after,
      handlers (Text.toLowerAscii tag) (handlersFor (Text.toLowerAscii tag) attributes) d.registry =
        .ok (added, registry) ∧
      ({ d with registry } : Draft).styleElement tag (Text.toLowerAscii tag)
        (StyledRules.ofRules rules (Attribute.find? (attributes ++ added) "class")) =
        ((name, props), after) ∧
      d' = { after with
        constants := ((attributes ++ added).filter fun a => !(after.isStyled && a.name == "class")).foldl
          recordConstants after.constants
        written := after.written ++ ("<" ++ name ++
          Text.concat (props.map fun p => " " ++ p ++ "=" ++ braced p) ++
          Text.concat (((attributes ++ added).filter fun a =>
            !(after.isStyled && a.name == "class")).map writeAttribute) ++
          (if selfClosing then " />" else ">")) } := by
  obtain ⟨⟨added, registry⟩, handled, done⟩ := Reported.bind_eq_ok done
  dsimp only at done
  rcases styled : ({ d with registry } : Draft).styleElement tag (Text.toLowerAscii tag)
    (StyledRules.ofRules rules (Attribute.find? (attributes ++ added) "class")) with ⟨⟨shown, props⟩, after⟩
  rw [styled] at done
  cases done
  exact ⟨added, registry, props, after, handled, styled, rfl⟩

/-- The registry of a component after an element is the one its handlers left. -/
theorem handlers_of_openElement {d d' : Draft} {tag name : String} {attributes : List Attribute}
    {rules : List Style.Rule} {selfClosing : Bool}
    (done : (d.openElement tag attributes rules selfClosing).outcome = .ok (name, d')) :
    ∃ added, handlers (Text.toLowerAscii tag) (handlersFor (Text.toLowerAscii tag) attributes)
      d.registry = .ok (added, d'.registry) := by
  obtain ⟨added, registry, props, after, handled, styled, rfl⟩ := styled_of_openElement done
  have kept := ({ d with registry } : Draft).styleElement_registry tag (Text.toLowerAscii tag)
    (StyledRules.ofRules rules (Attribute.find? (attributes ++ added) "class"))
  rw [styled] at kept
  exact ⟨added, handled.trans (congrArg (fun r => Except.ok (added, r)) kept.symm)⟩

theorem openElement_later {d d' : Draft} {tag name : String} {attributes : List Attribute}
    {rules : List Style.Rule} {selfClosing : Bool}
    (done : (d.openElement tag attributes rules selfClosing).outcome = .ok (name, d')) :
    Later d.registry d'.registry := by
  obtain ⟨added, handled⟩ := handlers_of_openElement done
  exact handlers_later handled

end Component.Draft

/-- What a walk relies on: a target keeps the registry it is given, and only opening an element adds to
it. -/
structure Target.Lawful {τ : Type} (t : Target τ) : Prop where
  registry_withRegistry : ∀ r s, t.registry (t.withRegistry r s) = r
  openElement : ∀ o s name s', (t.openElement o s).outcome = .ok (name, s') →
    Later (t.registry s) (t.registry s')
  closeElement : ∀ name s, t.registry (t.closeElement name s) = t.registry s
  addText : ∀ text s, t.registry (t.addText text s) = t.registry s
  addVariable : ∀ key default s, t.registry (t.addVariable key default s) = t.registry s
  openCondition : ∀ c s s', t.openCondition c s = .ok s' → t.registry s' = t.registry s
  closeCondition : ∀ s, t.registry (t.closeCondition s).2 = t.registry s

/-- A condition is opened on top of those that are open. -/
theorem Draft.openCondition_eq_ok {c : Condition} {s t : Draft} (opened : s.openCondition c = .ok t) :
    (∃ d text, s = .logicLess d ∧ d.opening c = .ok text ∧
        t = .logicLess ({ d with conditions := c.key :: d.conditions }.append text)) ∨
      ∃ d, s = .component d ∧ t = .component (d.openCondition c) := by
  cases s with
  | logicLess d =>
    left
    change (d.openCondition c).map .logicLess = .ok t at opened
    cases made : d.openCondition c with
    | error e =>
      rw [made] at opened
      cases opened
    | ok after =>
      rw [made] at opened
      obtain ⟨text, spelled, made⟩ := bind_eq_ok made
      cases made
      cases opened
      exact ⟨d, text, rfl, spelled, rfl⟩
  | component d =>
    cases opened
    exact Or.inr ⟨d, rfl, rfl⟩

theorem Draft.target_lawful : Draft.target.Lawful where
  registry_withRegistry r s := by cases s <;> rfl
  openElement o s name s' done := by
    cases s with
    | logicLess d =>
      cases done
      exact Later.refl _
    | component d =>
      obtain ⟨⟨shown, after⟩, opened, done⟩ := Reported.bind_eq_ok done
      cases done
      exact Component.Draft.openElement_later opened
  closeElement name s := by cases s <;> rfl
  addText text s := by cases s <;> rfl
  addVariable key default s := by
    cases s with
    | logicLess d =>
      change (d.addVariable key).registry = d.registry
      unfold LogicLess.Draft.addVariable
      split <;> rfl
    | component d =>
      change (d.addVariable key default).registry = d.registry
      unfold Component.Draft.addVariable
      split <;> rfl
  openCondition c s s' done := by
    rcases openCondition_eq_ok done with ⟨d, text, rfl, -, rfl⟩ | ⟨d, rfl, rfl⟩ <;> rfl
  closeCondition s := by
    cases s with
    | logicLess d =>
      change (d.closeCondition).2.registry = d.registry
      unfold LogicLess.Draft.closeCondition
      split <;> rfl
    | component d => rfl

namespace Walk

variable {τ α β : Type} {c : Context τ}

/-- A part of a walk after which the registry is further on, if it ends well. -/
def Grows (c : Context τ) (x : WalkM τ α) : Prop :=
  ∀ s a t, (x s).outcome = .ok (a, t) → Later (c.target.registry s) (c.target.registry t)

theorem bind_eq_ok {x : WalkM τ α} {f : α → WalkM τ β} {s u : τ} {b : β}
    (done : ((x >>= f) s).outcome = .ok (b, u)) :
    ∃ a t, (x s).outcome = .ok (a, t) ∧ (f a t).outcome = .ok (b, u) := by
  obtain ⟨⟨a, t⟩, first, rest⟩ := Reported.bind_eq_ok done
  exact ⟨a, t, first, rest⟩

theorem grows_pure (a : α) : Grows c (pure a : WalkM τ α) := by
  intro s b t done
  cases done
  exact Later.refl _

theorem grows_throw (e : CompileError) : Grows c (throw e : WalkM τ α) := by
  intro s a t done
  cases done

theorem grows_bind {x : WalkM τ α} {f : α → WalkM τ β} (first : Grows c x) (rest : ∀ a, Grows c (f a)) :
    Grows c (x >>= f) := by
  intro s b u done
  obtain ⟨a, t, here, later⟩ := bind_eq_ok done
  exact (first s a t here).trans (rest a t b u later)

theorem grows_modify {f : τ → τ} (same : ∀ s, c.target.registry (f s) = c.target.registry s) :
    Grows c (modify f : WalkM τ Unit) := by
  intro s a t done
  cases done
  rw [same]
  exact Later.refl _

theorem grows_share (lawful : c.target.Lawful) (name : String) (type : KeyType) :
    Grows c (share c name type) := by
  intro s key t done
  unfold share at done
  split at done
  · rename_i shared after called
    cases done
    rw [lawful.registry_withRegistry]
    exact Registry.Entry.later .share called
  · cases done

theorem grows_requiredKey (e : Markup.Element) : Grows c (requiredKey c e) := by
  unfold requiredKey
  dsimp only
  split
  · exact grows_throw _
  · exact grows_pure _

theorem grows_addVariable (lawful : c.target.Lawful) (e : Markup.Element)
    (children : List Markup.Node) : Grows c (addVariable c e children) := by
  refine grows_bind (grows_requiredKey e) fun name => grows_bind (grows_share lawful _ _) fun key => ?_
  exact grows_modify fun s => lawful.addVariable ..

theorem grows_openCondition (lawful : c.target.Lawful) (e : Markup.Element) :
    Grows c (openCondition c e) := by
  refine grows_bind (grows_requiredKey e) fun expression => ?_
  split
  · exact grows_throw _
  · refine grows_bind (grows_share lawful _ _) fun key => ?_
    intro s a t done
    dsimp only at done
    split at done
    · rename_i after opened
      cases done
      rw [lawful.openCondition _ _ _ opened]
      exact Later.refl _
    · cases done

theorem grows_closeCondition (lawful : c.target.Lawful) : Grows c (closeCondition c) := by
  intro s a t done
  cases done
  rw [lawful.closeCondition]
  exact Later.refl _

theorem grows_openElement (lawful : c.target.Lawful) (e : Markup.Element) :
    Grows c (openElement c e) := by
  refine grows_bind ?_ fun attributes => ?_
  · intro s attributes t done
    have grown := Attribute.compile_later Markup.Access.ofElement e.tag c.template
      { node := e, registry := c.target.registry s }
    unfold Walk.attributes at done
    split at done
    rename_i result compiled ended
    rw [ended] at grown
    split at done
    · cases done
      rw [lawful.registry_withRegistry]
      exact grown
    · cases done
  · intro s name t done
    exact lawful.openElement _ s name t (Reported.mapError_eq_ok done)

mutual

theorem grows_walkNode (lawful : c.target.Lawful) : (n : Markup.Node) → Grows c (walkNode c n)
  | .text t => grows_modify fun s => lawful.addText t s
  | .comment _ => grows_pure ()
  | .element e children => by
    unfold walkNode
    split
    · exact grows_addVariable lawful e children
    · split
      · exact grows_bind (grows_openCondition lawful e) fun _ =>
          grows_bind (grows_walk lawful children) fun _ => grows_closeCondition lawful
      · refine grows_bind (grows_openElement lawful e) fun name => ?_
        split
        · exact grows_bind (grows_walk lawful children) fun _ =>
            grows_modify fun s => lawful.closeElement name s
        · exact grows_pure ()

/-- However far a walk went, nothing that was registered or reserved before is gone. -/
theorem grows_walk (lawful : c.target.Lawful) : (nodes : List Markup.Node) → Grows c (walk c nodes)
  | [] => grows_pure ()
  | n :: rest => by
    unfold walk
    exact grows_bind (grows_walkNode lawful n) fun _ => grows_walk lawful rest

end

end Walk

end Stencil
