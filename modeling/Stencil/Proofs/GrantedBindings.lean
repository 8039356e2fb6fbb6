import Stencil.Proofs.RegistryGrants
import Stencil.Proofs.WalkSteps

/-! Where the keys of a template come from. Every binding of a compiled attribute stands for a key that one
call to the registry returned: a marker or a default is given its key, and an id shares one with all that
have its name. Of the whole walk the calls for markers are known beforehand from the markup. -/
namespace Stencil

open Markup (Node Element)
open Registry (Grant Grants)

/-- Whether a key may be declared with the first type where an attribute renders the second: it is the
same, or the first is one of the value sets of markup and the second a text or a choice. -/
def KeyType.declares : KeyType → KeyType → Bool
  | .named set, used => used == .named set || used == .string || used.options?.isSome
  | declared, used => declared == used

theorem KeyType.declares_refl (type : KeyType) : type.declares type = true := by
  cases type <;> simp [declares]

/-- The binding stands for the key that a call returned, as the call asked for it. -/
structure Registry.Grant.Fits (g : Grant) (b : Binding) : Prop where
  key : g.key = b.key
  optional : g.definition.optional = b.optional
  type : g.definition.type.declares b.type = true

namespace Attribute

/-- Whether the attribute was made of ids: only then may one that holds ids be left out. -/
def isOfIds (a : Attribute) : Bool := idAttributes.contains a.name && a.omittedIfEmpty

/-- Every binding stands for a key that one of the calls returned. Ids share their keys, and nothing else
does. -/
def Granted (grants : List Grant) (a : Attribute) : Prop :=
  ∀ b ∈ a.bindings, ∃ g ∈ grants, g.Fits b ∧ (g.entry = .share ↔ a.isOfIds = true) ∧
    (a.isOfIds = true → b.type = .string)

theorem Granted.mono {a : Attribute} {grants others : List Grant} (granted : a.Granted grants)
    (more : grants ⊆ others) : a.Granted others := by
  intro b member
  obtain ⟨g, given, fits⟩ := granted b member
  exact ⟨g, more given, fits⟩

end Attribute

namespace Marker

theorem grants_register {m : Marker} {plain : KeyType} {tag : String} {r r' : Registry} {b : Binding}
    (done : m.register plain tag r = .ok (b, r')) :
    ∃ g : Grant, Grants r [g] r' ∧ g.request? = some (Text.trim m.key, m.keyType plain) ∧ g.Fits b ∧
      g.entry = .registerMarker := by
  obtain ⟨key, called, rfl⟩ := called_of_register done
  refine ⟨⟨.registerMarker, m.key, _, key⟩, .single called, rfl, ?_, rfl⟩
  exact ⟨rfl, rfl, KeyType.declares_refl _⟩

theorem grants_registerAll {plain : KeyType} {tag : String} {markers : List Marker} {r r' : Registry}
    {bindings : List Binding} (done : registerAll plain tag markers r = .ok (bindings, r')) :
    ∃ grants, Grants r grants r' ∧
      grants.filterMap Grant.request? = markers.map (fun m => (Text.trim m.key, m.keyType plain)) ∧
      ∀ b ∈ bindings, ∃ g ∈ grants, g.Fits b ∧ g.entry = .registerMarker := by
  induction markers generalizing r bindings with
  | nil =>
    cases done
    exact ⟨[], .nil, rfl, by simp⟩
  | cons m rest ih =>
    obtain ⟨binding, middle, others, first, later, rfl⟩ := registerAll_cons done
    obtain ⟨g, here, asks, fits, marker⟩ := grants_register first
    obtain ⟨grants, made, requests, all⟩ := ih later
    refine ⟨g :: grants, here.append made, ?_, ?_⟩
    · rw [List.filterMap_cons_some asks, requests, List.map_cons]
    · intro b member
      rcases List.mem_cons.mp member with rfl | inside
      · exact ⟨g, List.mem_cons_self .., fits, marker⟩
      · obtain ⟨other, given, fits⟩ := all b inside
        exact ⟨other, List.mem_cons_of_mem g given, fits⟩

end Marker

namespace Attribute

/-- What the markers in the value of an attribute ask for. -/
def requestsIn (e : Element) (name : String) : List (String × KeyType) :=
  match Marker.parse (e.authored name) with
  | .ok (_, markers) => markers.map fun m => (Text.trim m.key, m.keyType (plainType name))
  | .error _ => []

/-- What the markers of an element ask for, in the order of its compilation. -/
def requests (e : Element) : List (String × KeyType) :=
  (sortNames (e.attrs.map (·.name))).flatMap (requestsIn e)

theorem grants_authored {tag : String} {names : List String} {s s' : Compiling Element}
    {attributes : List Attribute}
    (done : authored Markup.Access.ofElement tag names s = (.ok attributes, s')) :
    ∃ grants, Grants s.registry grants s'.registry ∧
      grants.filterMap Grant.request? = names.flatMap (requestsIn s.node) ∧
      ∀ a ∈ attributes, a.Granted grants := by
  induction names generalizing s attributes with
  | nil =>
    cases done
    exact ⟨[], .nil, rfl, by simp⟩
  | cons name rest ih =>
    obtain ⟨raw, t, text, bindings, registry, later, read, valued, further, rfl⟩ := authored_cons done
    obtain ⟨rfl, rfl⟩ := onNode_read_ofElement read
    obtain ⟨markers, parsed, registered⟩ := readValue_eq_ok valued
    obtain ⟨grants, here, asked, all⟩ := Marker.grants_registerAll registered
    obtain ⟨others, made, requests, granted⟩ := ih further
    refine ⟨grants ++ others, here.append made, ?_, ?_⟩
    · rw [List.filterMap_append, asked, requests, List.flatMap_cons]
      simp only [requestsIn, parsed]
    · intro a member
      rcases List.mem_cons.mp member with rfl | inside
      · intro b bound
        obtain ⟨g, given, fits, marker⟩ := all b bound
        refine ⟨g, List.mem_append_left _ given, fits, ?_⟩
        simp [marker, isOfIds]
      · exact (granted a inside).mono (List.subset_append_right ..)

theorem grants_idBindings {σ : Type} {a : Attribute} {tag : String} {ids : List String}
    {s s' : Compiling σ} {bindings : List Binding}
    (done : idBindings a tag ids s = (.ok bindings, s')) :
    ∃ grants, Grants s.registry grants s'.registry ∧ grants.filterMap Grant.request? = [] ∧
      ∀ b ∈ bindings, ∃ g ∈ grants, g.Fits b ∧ g.entry = .share ∧ b.type = .string := by
  induction ids generalizing s bindings with
  | nil =>
    cases done
    exact ⟨[], .nil, rfl, by simp⟩
  | cons id rest ih =>
    obtain ⟨key, registry, later, called, bound, rfl⟩ := idBindings_cons done
    obtain ⟨grants, made, silent, all⟩ := ih bound
    have here : Grants s.registry [⟨.share, Text.camelCase id, _, key⟩] registry := .single called
    refine ⟨_, here.append made, silent, ?_⟩
    intro b member
    rcases List.mem_cons.mp member with rfl | inside
    · exact ⟨_, List.mem_cons_self .., ⟨rfl, rfl, rfl⟩, rfl, rfl⟩
    · obtain ⟨g, given, fits⟩ := all b inside
      exact ⟨g, List.mem_cons_of_mem _ given, fits⟩

theorem granted_put {grants : List Grant} {attributes : List Attribute} {a : Attribute}
    (all : ∀ b ∈ attributes, b.Granted grants) (new : a.Granted grants) :
    ∀ b ∈ put attributes a, b.Granted grants := by
  intro b member
  rcases mem_put member with rfl | old
  · exact new
  · exact all b old

theorem grants_bindIds {σ : Type} {tag : String} {ids : List String} {attributes bound : List Attribute}
    {before : List Grant} {s s' : Compiling σ} (known : ids ⊆ idAttributes)
    (all : ∀ a ∈ attributes, a.Granted before) (done : bindIds tag ids attributes s = (.ok bound, s')) :
    ∃ grants, Grants s.registry grants s'.registry ∧ grants.filterMap Grant.request? = [] ∧
      ∀ a ∈ bound, a.Granted (before ++ grants) := by
  induction ids generalizing attributes before s with
  | nil =>
    cases done
    exact ⟨[], .nil, rfl, by simpa using all⟩
  | cons id rest ih =>
    have others : rest ⊆ idAttributes := fun _ member => known (List.mem_cons_of_mem id member)
    obtain ⟨done, -⟩ | ⟨bearer, bindings, t, -, own, -, tied, done⟩ := bindIds_cons done
    · exact ih others all done
    · obtain ⟨grants, here, silent, ids⟩ := grants_idBindings tied
      have held : id ∈ idAttributes := known (List.mem_cons_self ..)
      have kept : ∀ a ∈ put attributes
          { bearer with text := "", type := .string, bindings, omittedIfEmpty := true },
          a.Granted (before ++ grants) := by
        refine granted_put (fun a member => (all a member).mono (List.subset_append_left ..)) ?_
        intro b member
        obtain ⟨g, given, fits, share, type⟩ := ids b member
        refine ⟨g, List.mem_append_right _ given, fits, ?_, fun _ => type⟩
        simp [share, isOfIds, own, held]
      obtain ⟨later, made, still, granted⟩ := ih others kept done
      refine ⟨grants ++ later, here.append made, ?_, ?_⟩
      · rw [List.filterMap_append, silent, still]
        rfl
      · simpa using granted

end Attribute

namespace Default

/-- A default renders what its key is declared with, and never an attribute that holds ids. -/
structure Agreeing (d : Default) : Prop where
  type : d.registered.declares d.rendered = true
  name : d.attributeName ∉ Attribute.idAttributes

section

variable {name : String} (other : name ∉ Attribute.idAttributes)

include other

theorem agreeing_text (optional : Bool) : (text name optional).Agreeing := ⟨rfl, other⟩

theorem agreeing_flag (key : String) : (flag name key).Agreeing := ⟨rfl, other⟩

theorem agreeing_number (key : String) : (number name key).Agreeing := ⟨rfl, other⟩

theorem agreeing_named (key : String) (type : NamedType) (optional : Bool) :
    (named name key type optional).Agreeing := ⟨rfl, other⟩

theorem agreeing_literalText (literal : String) (optional : Bool) :
    (literalText name literal optional).Agreeing := by
  unfold literalText
  split <;> exact ⟨rfl, other⟩

end

theorem agreeing_forInput {name value : String} {type : Option String} {limited : Bool} :
    ∀ d ∈ forInput name value type limited, d.Agreeing := by
  unfold forInput
  simp only [List.forall_mem_append]
  refine ⟨⟨⟨?_, ?_⟩, ?_⟩, ?_⟩
  · simp (disch := decide) [agreeing_flag, agreeing_literalText]
  · split <;> simp (disch := decide) [agreeing_literalText]
  · split <;> simp (disch := decide) [agreeing_flag]
  · split
    · simp only [List.forall_mem_append]
      refine ⟨⟨⟨⟨?_, ?_⟩, ?_⟩, ?_⟩, ?_⟩
      · split <;> simp (disch := decide) [agreeing_number]
      · split <;> simp (disch := decide) [agreeing_named]
      · simp (disch := decide) [agreeing_flag]
      · split <;> simp (disch := decide) [agreeing_number]
      · simp (disch := decide) [agreeing_named]
    · simp

theorem agreeing_forTag (tag : String) (attributes : List Attribute) :
    ∀ d ∈ forTag tag attributes, d.Agreeing := by
  have allow : (⟨"allow", "allow", .string, .string, true⟩ : Default).Agreeing := ⟨rfl, by decide⟩
  have crossOrigin : (⟨"crossorigin", "crossOrigin", .named .crossOrigin,
      .enumeration crossOriginChoices, true⟩ : Default).Agreeing := ⟨rfl, by decide⟩
  unfold forTag
  split
  case h_5 => exact agreeing_forInput
  all_goals simp (disch := decide) [required, free, mediaFlags, agreeing_text, agreeing_flag,
    agreeing_number, agreeing_named, allow, crossOrigin]

variable {tag : String} {before : List Grant} {r r' : Registry} {attributes full : List Attribute}

theorem grants_apply {d : Default} (agreeing : d.Agreeing) (all : ∀ a ∈ attributes, a.Granted before)
    (done : d.apply tag attributes r = .ok (full, r')) :
    ∃ grants, Grants r grants r' ∧ grants.filterMap Grant.request? = [] ∧
      ∀ a ∈ full, a.Granted (before ++ grants) := by
  rcases apply_cases done with ⟨-, rfl, rfl⟩ | ⟨-, key, called, rfl⟩
  · exact ⟨[], .nil, rfl, by simpa using all⟩
  · have here : Grants r [⟨.register, d.key, _, key⟩] r' := .single called
    refine ⟨_, here, rfl, ?_⟩
    refine Attribute.granted_put (fun a member => (all a member).mono (List.subset_append_left ..)) ?_
    intro b member
    have other : (d.replacement tag key).isOfIds = false := by
      simp [Attribute.isOfIds, replacement, agreeing.name]
    rcases List.mem_singleton.mp member with rfl
    refine ⟨_, List.mem_append_right _ (List.mem_singleton_self _), ⟨rfl, rfl, agreeing.type⟩, ?_⟩
    simp [other]

theorem grants_applyAll {defaults : List Default} (agreeing : ∀ d ∈ defaults, d.Agreeing)
    (all : ∀ a ∈ attributes, a.Granted before)
    (done : applyAll tag defaults attributes r = (.ok full, r')) :
    ∃ grants, Grants r grants r' ∧ grants.filterMap Grant.request? = [] ∧
      ∀ a ∈ full, a.Granted (before ++ grants) := by
  induction defaults generalizing attributes before r with
  | nil =>
    cases done
    exact ⟨[], .nil, rfl, by simpa using all⟩
  | cons d rest ih =>
    obtain ⟨next, after, applied, done⟩ := applyAll_cons done
    obtain ⟨grants, here, silent, kept⟩ := grants_apply (agreeing d (List.mem_cons_self ..)) all applied
    obtain ⟨later, made, still, granted⟩ :=
      ih (fun d member => agreeing d (List.mem_cons_of_mem _ member)) kept done
    refine ⟨grants ++ later, here.append made, ?_, ?_⟩
    · rw [List.filterMap_append, silent, still]
      rfl
    · simpa using granted

theorem granted_omitEmptyLimit {type : Option String} (all : ∀ a ∈ attributes, a.Granted before) :
    ∀ a ∈ omitEmptyLimit tag type attributes, a.Granted before := by
  unfold omitEmptyLimit
  split
  · rename_i limit known
    have own : limit.name = "maxlength" := by simpa using List.find?_some known
    have same : ∀ omitted, ({ limit with omittedIfEmpty := omitted } : Attribute).isOfIds = false := by
      simp [Attribute.isOfIds, own, Attribute.idAttributes]
    split
    · refine Attribute.granted_put all fun b member => ?_
      obtain ⟨g, given, fits, shared, -⟩ := all limit (List.mem_of_find?_eq_some known) b member
      refine ⟨g, given, fits, ?_, ?_⟩
      · rw [shared, show limit.isOfIds = false from same _, same]
      · simp [same]
    · exact all
  · exact all

end Default

/-- The calls of one compilation: those for markers ask for what the element asks for, and every binding
that is left stands for the key of one of them. -/
theorem Attribute.grants_compile {e : Element} {template : String} {r : Registry} {full : List Attribute}
    {after : Compiling Element}
    (done : compile Markup.Access.ofElement e.tag template { node := e, registry := r } = (.ok full, after)) :
    ∃ grants, Grants r grants after.registry ∧
      grants.filterMap Grant.request? = requests e ∧ ∀ a ∈ full, a.Granted grants := by
  obtain ⟨names, start, written, t, bound, u, named, read, tied, completed⟩ :=
    compileAll_eq_ok (compile_eq_ok done)
  cases named
  obtain ⟨first, here, asked, granted⟩ := grants_authored read
  obtain ⟨second, next, silent, granted⟩ := grants_bindIds (List.Subset.refl _) granted tied
  obtain ⟨offered, applied, rfl⟩ := withDefaults_eq_ok completed
  obtain ⟨third, last, still, granted⟩ :=
    Default.grants_applyAll (Default.agreeing_forTag _ bound) granted applied
  refine ⟨first ++ second ++ third, (here.append next).append last, ?_, ?_⟩
  · rw [List.filterMap_append, List.filterMap_append, asked, silent, still, List.append_nil,
      List.append_nil]
    rfl
  · exact Default.granted_omitEmptyLimit granted

namespace Component.Draft

theorem grants_handlers {tag : String} {wanted : List (String × KeyType)} {r r' : Registry}
    {added : List Attribute} (done : handlers tag wanted r = .ok (added, r')) :
    ∃ grants, Grants r grants r' ∧ grants.filterMap Grant.request? = [] ∧
      ∀ a ∈ added, a.Granted grants := by
  induction wanted generalizing r added with
  | nil =>
    cases done
    exact ⟨[], .nil, rfl, by simp⟩
  | cons first rest ih =>
    obtain ⟨key, middle, others, called, later, rfl⟩ := handlers_cons done
    obtain ⟨grants, made, silent, granted⟩ := ih later
    have here : Grants r [⟨.register, first.1, _, key⟩] middle := .single called
    refine ⟨_, here.append made, silent, ?_⟩
    intro a member
    rcases List.mem_cons.mp member with rfl | inside
    · intro b bound
      rcases List.mem_singleton.mp bound with rfl
      refine ⟨_, List.mem_cons_self .., ⟨rfl, rfl, KeyType.declares_refl _⟩, ?_⟩
      simp [Attribute.isOfIds]
    · exact (granted a inside).mono (List.subset_cons_self ..)

end Component.Draft

namespace Draft

/-- Between two drafts of a walk the registry was called for these markers, and for every binding of these
elements. -/
def Calls (s : Draft) (requests : List (String × KeyType)) (openings : List Opening) (u : Draft) : Prop :=
  ∃ grants, Grants s.registry grants u.registry ∧ grants.filterMap Grant.request? = requests ∧
    ∀ o ∈ openings, ∀ a ∈ o.attributes, a.Granted grants

theorem Calls.of_same {s u : Draft} (same : u.registry = s.registry) : Calls s [] [] u := by
  refine ⟨[], ?_, rfl, by simp⟩
  rw [same]
  exact .nil

theorem Calls.trans {s t u : Draft} {requests others : List (String × KeyType)}
    {openings more : List Opening} (first : Calls s requests openings t) (second : Calls t others more u) :
    Calls s (requests ++ others) (openings ++ more) u := by
  obtain ⟨grants, here, asked, granted⟩ := first
  obtain ⟨later, made, further, all⟩ := second
  refine ⟨grants ++ later, here.append made, ?_, ?_⟩
  · rw [List.filterMap_append, asked, further]
  · intro o member a bound
    rcases List.mem_append.mp member with old | new
    · exact (granted o old a bound).mono (List.subset_append_left ..)
    · exact (all o new a bound).mono (List.subset_append_right ..)

theorem calls_addText (text : String) (s : Draft) : Calls s [] [] (s.addText text) :=
  .of_same (target_lawful.addText text s)

theorem calls_addVariable (key default : String) (s : Draft) : Calls s [] [] (s.addVariable key default) :=
  .of_same (target_lawful.addVariable key default s)

theorem calls_openCondition {c : Condition} {s t : Draft} (opened : s.openCondition c = .ok t) :
    Calls s [] [] t :=
  .of_same (target_lawful.openCondition c s t opened)

theorem calls_closeCondition (s : Draft) : Calls s [] [] s.closeCondition.2 :=
  .of_same (target_lawful.closeCondition s)

theorem calls_closeElement (name : String) (s : Draft) : Calls s [] [] (s.closeElement name) :=
  .of_same (target_lawful.closeElement name s)

theorem calls_share {s : Draft} {name key : String} {d : KeyDefinition} {r : Registry}
    (called : s.registry.share name d = .ok (key, r)) : Calls s [] [] (s.withRegistry r) := by
  refine ⟨[⟨.share, name, d, key⟩], ?_, rfl, by simp⟩
  rw [show (s.withRegistry r).registry = r from target_lawful.registry_withRegistry r s]
  exact .single called

theorem calls_compile {c : Walk.Context Draft} {e : Element} {s : Draft} {attributes : List Attribute}
    {after : Attribute.Compiling Element}
    (compiled : Attribute.compile Markup.Access.ofElement e.tag c.template
      { node := e, registry := s.registry } = (.ok attributes, after)) :
    Calls s (Attribute.requests e) [Walk.opening c e attributes] (s.withRegistry after.registry) := by
  obtain ⟨grants, made, asked, granted⟩ := Attribute.grants_compile compiled
  refine ⟨grants, ?_, asked, ?_⟩
  · rw [show (s.withRegistry after.registry).registry = _ from target_lawful.registry_withRegistry _ s]
    exact made
  · intro o member
    rcases List.mem_singleton.mp member with rfl
    exact granted

theorem calls_openElement {o : Opening} {s t : Draft} {name : String}
    (opened : (s.openElement o).outcome = .ok (name, t)) : Calls s [] [] t := by
  cases s with
  | logicLess d =>
    cases opened
    exact .of_same rfl
  | component d =>
    obtain ⟨⟨shown, after⟩, made, done⟩ := Reported.bind_eq_ok opened
    cases done
    obtain ⟨added, handled⟩ := Component.Draft.handlers_of_openElement made
    obtain ⟨grants, made, silent, -⟩ := Component.Draft.grants_handlers handled
    exact ⟨grants, made, silent, by simp⟩

end Draft

namespace Template

mutual

def requestsBy : Node → List (String × KeyType)
  | .element e children =>
    if e.tag == variableTag then []
    else if e.tag == conditionTag then requests children
    else Attribute.requests e ++ if e.isLeaf then [] else requests children
  | _ => []

/-- What the markers of the markup ask for, in the order in which a walk comes to them. -/
def requests : List Node → List (String × KeyType)
  | [] => []
  | n :: rest => requestsBy n ++ requests rest

end

end Template

namespace Walk

theorem Walks.calls {t : Template} {rules : List Style.Rule} {nodes : List Node} {s u : Draft}
    {steps : List Step} (walks : Walks (t.context rules) nodes s steps u) :
    s.Calls (Template.requests nodes) (openingsOf steps) u := by
  induction walks with
  | nil => exact .of_same rfl
  | @text text _ s _ _ _ ih => exact (Draft.calls_addText text s).trans ih
  | comment _ ih => exact ih
  | @value _ children _ s key r _ _ tag _ shared _ ih =>
    have written := Draft.calls_addVariable key (Node.renderAll children) (s.withRegistry r)
    have all := (Draft.calls_share shared).trans (written.trans ih)
    simpa [Template.requests, Template.requestsBy, tag, openingsOf, Step.openings] using all
  | @condition _ _ _ _ _ _ _ _ _ v _ _ tag _ shared opened _ _ inner ih =>
    have tested := Draft.calls_openCondition opened
    have inside := tested.trans (inner.trans (Draft.calls_closeCondition v))
    have all := (Draft.calls_share shared).trans (inside.trans ih)
    have other : ¬conditionTag = variableTag := by decide
    simpa [Template.requests, Template.requestsBy, tag, other, openingsOf, Step.openings] using all
  | leaf notVariable notCondition leaf compiled opened _ ih =>
    have here := (Draft.calls_compile compiled).trans (Draft.calls_openElement opened)
    have all := here.trans ih
    simpa [Template.requests, Template.requestsBy, notVariable, notCondition, leaf, openingsOf,
      Step.openings] using all
  | @parent _ _ _ _ _ _ name _ _ v _ _ notVariable notCondition leaf compiled opened _ _ inner ih =>
    have here := (Draft.calls_compile compiled).trans (Draft.calls_openElement opened)
    have inside := inner.trans (Draft.calls_closeElement name v)
    have all := here.trans (inside.trans ih)
    simpa [Template.requests, Template.requestsBy, notVariable, notCondition, leaf, openingsOf,
      Step.openings] using all

end Walk

end Stencil
