import Stencil.Proofs.CompiledAttributes
import Stencil.Proofs.MatchedAccess

/-! Compiling the attributes of an element with one registry or another. The registries decide what the keys
are called and nothing else: whether a key is given depends on the name that is asked for, so compiling
fails for the same reason, or it gives attributes that are the same but for the names of their keys. -/
namespace Stencil

open Markup (Access AccessM)

theorem Ends.bind {ε α α' β β' : Type} {Q : α → β → Prop} {Q' : α' → β' → Prop} {x : Except ε α}
    {y : Except ε β} {f : α → Except ε α'} {g : β → Except ε β'} (first : Ends Q x y)
    (rest : ∀ a b, Q a b → Ends Q' (f a) (g b)) : Ends Q' (x >>= f) (y >>= g) := by
  rcases first with same | e
  · exact rest _ _ same
  · exact .error e

theorem Ends.mono {ε α β : Type} {Q Q' : α → β → Prop} {x : Except ε α} {y : Except ε β}
    (ends : Ends Q x y) (weaker : ∀ a b, Q a b → Q' a b) : Ends Q' x y := by
  rcases ends with same | e
  · exact .ok (weaker _ _ same)
  · exact .error e

/-- A registry gives a key for every name but a blank one. -/
theorem Registry.Entry.ends_call (entry : Entry) (r r' : Registry) (name : String) (d : KeyDefinition) :
    Ends (fun _ _ => True) (entry.call r name d) (entry.call r' name d) := by
  by_cases blank : Text.trim name = ""
  · rw [entry.call_blank r d blank, entry.call_blank r' d blank]
    exact .error _
  · obtain ⟨_, _, called, -⟩ := entry.call_eq_ok r d blank
    obtain ⟨_, _, called', -⟩ := entry.call_eq_ok r' d blank
    rw [called, called']
    exact .ok trivial

/-- The binding without the name of its key. -/
def Binding.keyless (b : Binding) : Binding := { b with key := "" }

namespace Marker

theorem ends_register (m : Marker) (plain : KeyType) (tag : String) (r r' : Registry) :
    Ends (fun p q => p.1.keyless = q.1.keyless) (m.register plain tag r) (m.register plain tag r') := by
  have ends := Registry.Entry.ends_call .registerMarker r r' m.key
    { type := m.keyType plain, optional := m.optional, tag := some tag }
  simp only [Registry.Entry.call] at ends
  simp only [register]
  generalize r.registerMarker m.key _ = x at ends ⊢
  generalize r'.registerMarker m.key _ = y at ends ⊢
  cases ends with
  | ok => exact .ok rfl
  | error => exact .error _

theorem ends_registerAll (plain : KeyType) (tag : String) (markers : List Marker) (r r' : Registry) :
    Ends (fun p q => p.1.map Binding.keyless = q.1.map Binding.keyless)
      (registerAll plain tag markers r) (registerAll plain tag markers r') := by
  induction markers generalizing r r' with
  | nil => exact .ok rfl
  | cons m rest ih =>
    refine (ends_register m plain tag r r').bind ?_
    rintro ⟨b, s⟩ ⟨c, s'⟩ same
    refine (ih s s').bind ?_
    rintro ⟨bs, _⟩ ⟨cs, _⟩ later
    exact .ok (by rw [List.map_cons, List.map_cons, same, later])

end Marker

theorem ends_readValue (raw tag : String) (plain : KeyType) (r r' : Registry) :
    Ends (fun p q => p.1.1 = q.1.1 ∧ p.1.2.map Binding.keyless = q.1.2.map Binding.keyless)
      (readValue raw tag plain r) (readValue raw tag plain r') := by
  unfold readValue
  cases Marker.parse raw with
  | error e => exact .error e
  | ok value =>
    refine (Marker.ends_registerAll plain tag value.2 r r').bind ?_
    rintro ⟨bs, _⟩ ⟨cs, _⟩ same
    exact .ok ⟨rfl, same⟩

namespace Attribute

/-- The attribute without the names of its keys. -/
def keyless (a : Attribute) : Attribute := { a with bindings := a.bindings.map Binding.keyless }

@[simp] theorem keyless_name (a : Attribute) : a.keyless.name = a.name := rfl

@[simp] theorem keyless_text (a : Attribute) : a.keyless.text = a.text := rfl

@[simp] theorem keyless_isStatic (a : Attribute) : a.keyless.isStatic = a.isStatic := by
  simp [isStatic, keyless]

theorem find?_map_keyless (attributes : List Attribute) (name : String) :
    find? (attributes.map keyless) name = (find? attributes name).map keyless := by
  unfold find?
  rw [List.find?_map]
  rfl

theorem map_keyless_put (attributes : List Attribute) (a : Attribute) :
    (put attributes a).map keyless = put (attributes.map keyless) a.keyless := by
  induction attributes with
  | nil => rfl
  | cons b rest ih =>
    unfold put
    by_cases same : b.name = a.name
    · simp [same]
    · simp [same, ih]

/-- Attributes that are the same but for the names of their keys. -/
def SameButKeys (attributes others : List Attribute) : Prop := attributes.map keyless = others.map keyless

section

variable {attributes others : List Attribute} (same : SameButKeys attributes others)

include same

theorem SameButKeys.put {a b : Attribute} (new : a.keyless = b.keyless) :
    SameButKeys (put attributes a) (put others b) := by
  unfold SameButKeys
  rw [map_keyless_put, map_keyless_put, same, new]

theorem SameButKeys.find? (name : String) :
    (Attribute.find? attributes name).map keyless = (Attribute.find? others name).map keyless := by
  rw [← find?_map_keyless, ← find?_map_keyless, same]

/-- What is read off an attribute without its keys is the same. -/
theorem SameButKeys.read {α : Type} {f : Attribute → α} (keyless : ∀ a : Attribute, f a.keyless = f a)
    (name : String) : (Attribute.find? attributes name).map f = (Attribute.find? others name).map f := by
  have read := congrArg (Option.map f) (same.find? name)
  simpa [Option.map_map, Function.comp_def, keyless] using read

theorem SameButKeys.names : attributes.map (·.name) = others.map (·.name) := by
  have names := congrArg (List.map (·.name)) same
  simpa [List.map_map, Function.comp_def] using names

end

variable {σ α β ε : Type}

/-- Compilations of the same element, with whatever keys. -/
def SameNode (s t : Compiling σ) : Prop := s.node = t.node

theorem alike_onNode_of_same (x : AccessM σ α) : Alike SameNode Eq (onNode x) (onNode x) := by
  intro s t same
  unfold onNode
  rw [show s.node = t.node from same]
  split
  · exact ⟨.ok rfl, rfl⟩
  · exact ⟨.error _, rfl⟩

theorem alike_onRegistry_of_ends {Q : α → β → Prop} {wrap : ε → AttributeError}
    {f : Registry → Except ε (α × Registry)} {g : Registry → Except ε (β × Registry)}
    (ends : ∀ r r', Ends (fun p q => Q p.1 q.1) (f r) (g r')) :
    Alike SameNode Q (onRegistry wrap f : CompileM σ α) (onRegistry wrap g : CompileM σ β) := by
  intro s t same
  have ended := ends s.registry t.registry
  unfold onRegistry
  generalize f s.registry = x at ended ⊢
  generalize g t.registry = y at ended ⊢
  cases ended with
  | ok values => exact ⟨.ok values, same⟩
  | error e => exact ⟨.error _, same⟩

theorem alike_authored_keyless (a : Access σ) (tag : String) (names : List String) :
    Alike SameNode SameButKeys (authored a tag names) (authored a tag names) := by
  induction names with
  | nil => exact alike_pure rfl
  | cons name rest ih =>
    apply alike_bind_eq (alike_onNode_of_same _)
    intro raw
    apply alike_bind (alike_onRegistry_of_ends (Q := fun p q => p.1 = q.1 ∧
      p.2.map Binding.keyless = q.2.map Binding.keyless) (ends_readValue raw tag (plainType name)))
    rintro ⟨text, bindings⟩ ⟨text', bindings'⟩ ⟨rfl, same⟩
    apply alike_bind ih
    intro later later' others
    apply alike_pure
    simp only [SameButKeys, List.map_cons, keyless, same]
    exact congrArg _ others

theorem alike_share_keyless (name : String) (d : KeyDefinition) :
    Alike SameNode (fun _ _ => True) (onRegistry .registry (·.share name d) : CompileM σ String)
      (onRegistry .registry (·.share name d)) :=
  alike_onRegistry_of_ends fun r r' =>
    (Registry.Entry.ends_call .share r r' name d).mono fun _ _ _ => trivial

theorem alike_idBindings_keyless {a b : Attribute} (name : a.name = b.name) (text : a.text = b.text)
    (tag : String) (ids : List String) :
    Alike SameNode (fun bs cs => bs.map Binding.keyless = cs.map Binding.keyless)
      (idBindings a tag ids : CompileM σ (List Binding)) (idBindings b tag ids) := by
  induction ids with
  | nil => exact alike_pure rfl
  | cons id rest ih =>
    unfold idBindings
    dsimp only
    rw [name, text]
    split
    · exact alike_throw _
    · apply alike_bind (alike_share_keyless _ _)
      intro key key' _
      apply alike_bind ih
      intro later later' others
      apply alike_pure
      rw [List.map_cons, List.map_cons, others]
      rfl

theorem alike_bindIds_keyless (tag : String) (ids : List String) {attributes others : List Attribute}
    (same : SameButKeys attributes others) :
    Alike SameNode SameButKeys (bindIds tag ids attributes : CompileM σ (List Attribute))
      (bindIds tag ids others) := by
  induction ids generalizing attributes others with
  | nil => exact alike_pure same
  | cons id rest ih =>
    have found := same.find? id
    unfold bindIds
    cases here : Attribute.find? attributes id with
    | none =>
      rw [here] at found
      rw [Option.map_eq_none_iff.mp found.symm]
      exact ih same
    | some a =>
      rw [here] at found
      obtain ⟨b, there, keyless⟩ := Option.map_eq_some_iff.mp found.symm
      have text : a.text = b.text := by simpa using congrArg Attribute.text keyless.symm
      have name : a.name = b.name := by simpa using congrArg Attribute.name keyless.symm
      rw [there]
      dsimp only
      rw [text]
      split
      · exact ih same
      · apply alike_bind (alike_idBindings_keyless name text tag _)
        intro bindings bindings' bound
        apply ih
        apply same.put
        simp only [Attribute.keyless, name, bound]

end Attribute

namespace Default

open Attribute (SameButKeys)

section

variable {attributes others : List Attribute} (same : SameButKeys attributes others)

include same

theorem literal?_of_same (name : String) : literal? attributes name = literal? others name :=
  same.read (f := (·.text)) Attribute.keyless_text name

theorem isBound_of_same (name : String) : isBound attributes name = isBound others name := by
  have read := same.read (f := fun a => !a.isStatic) (fun a => by rw [Attribute.keyless_isStatic]) name
  have any : ∀ found : Option Attribute, (found.any fun a => !a.isStatic) =
      (found.map fun a => !a.isStatic).any id := by
    intro found
    cases found <;> rfl
  unfold isBound
  rw [any, read, any]

theorem forTag_of_same (tag : String) : forTag tag attributes = forTag tag others := by
  unfold forTag
  simp only [literal?_of_same same]

theorem ends_apply (d : Default) (tag : String) (r r' : Registry) :
    Ends (fun p q => SameButKeys p.1 q.1) (d.apply tag attributes r) (d.apply tag others r') := by
  unfold apply
  rw [isBound_of_same same]
  split
  · exact .ok same
  · refine (Registry.Entry.ends_call .register r r' d.key
      { type := d.registered, optional := d.optional, tag := some tag }).bind ?_
    rintro ⟨key, _⟩ ⟨key', _⟩ _
    exact .ok (same.put rfl)

end

theorem ends_applyAll (tag : String) (defaults : List Default) {attributes others : List Attribute}
    (same : SameButKeys attributes others) (r r' : Registry) :
    Ends SameButKeys (applyAll tag defaults attributes r).1 (applyAll tag defaults others r').1 := by
  induction defaults generalizing attributes others r r' with
  | nil => exact .ok same
  | cons d rest ih =>
    have ends := ends_apply same d tag r r'
    unfold applyAll
    generalize d.apply tag attributes r = x at ends ⊢
    generalize d.apply tag others r' = y at ends ⊢
    cases ends with
    | ok next => exact ih next _ _
    | error e => exact .error e

theorem omitEmptyLimit_of_same (tag : String) (type : Option String) {attributes others : List Attribute}
    (same : SameButKeys attributes others) :
    SameButKeys (omitEmptyLimit tag type attributes) (omitEmptyLimit tag type others) := by
  have found := same.find? "maxlength"
  unfold omitEmptyLimit
  cases here : Attribute.find? attributes "maxlength" with
  | none =>
    rw [here] at found
    rw [Option.map_eq_none_iff.mp found.symm]
    exact same
  | some a =>
    rw [here] at found
    obtain ⟨b, there, keyless⟩ := Option.map_eq_some_iff.mp found.symm
    rw [there]
    dsimp only
    split
    · refine same.put ?_
      exact congrArg (fun limit : Attribute => { limit with omittedIfEmpty := true }) keyless.symm
    · exact same

end Default

namespace Attribute

variable {σ : Type}

theorem alike_withDefaults_keyless (tag : String) {attributes others : List Attribute}
    (same : SameButKeys attributes others) :
    Alike SameNode SameButKeys (withDefaults tag attributes : CompileM σ (List Attribute))
      (withDefaults tag others) := by
  intro s t node
  have ends := Default.ends_applyAll tag (Default.forTag tag others) same s.registry t.registry
  unfold withDefaults
  rw [Default.forTag_of_same same, Default.literal?_of_same same]
  rcases here : Default.applyAll tag (Default.forTag tag others) attributes s.registry with ⟨left, r⟩
  rcases there : Default.applyAll tag (Default.forTag tag others) others t.registry with ⟨right, r'⟩
  rw [here, there] at ends
  cases ends with
  | ok full => exact ⟨.ok (Default.omitEmptyLimit_of_same tag _ full), node⟩
  | error e => exact ⟨.error _, node⟩

theorem alike_compileAll_keyless (a : Access σ) (tag : String) :
    Alike SameNode SameButKeys (compileAll a tag) (compileAll a tag) := by
  apply alike_bind_eq (alike_onNode_of_same _)
  intro names
  apply alike_bind (alike_authored_keyless a tag _)
  intro written written' same
  apply alike_bind (alike_bindIds_keyless tag idAttributes same)
  intro bound bound' same
  apply alike_bind (alike_withDefaults_keyless tag same)
  intro full full' same
  rw [same.names]
  split
  · exact alike_throw _
  · exact alike_pure same

/-- Whatever the registry, an element compiles to the same attributes but for the names of their keys, or
fails with the same message. -/
theorem ends_compile (a : Access σ) (tag template : String) {s t : Compiling σ} (node : s.node = t.node) :
    Ends SameButKeys (compile a tag template s).1 (compile a tag template t).1 := by
  obtain ⟨ended, kept⟩ := alike_compileAll_keyless a (Text.toLowerAscii tag) s t node
  unfold compile
  rcases here : compileAll a (Text.toLowerAscii tag) s with ⟨left, s'⟩
  rcases there : compileAll a (Text.toLowerAscii tag) t with ⟨right, t'⟩
  rw [here, there] at ended kept
  cases ended with
  | ok same => exact .ok same
  | error e =>
    dsimp only
    rw [show s'.node = t'.node from kept]
    exact .error _

end Attribute

end Stencil
