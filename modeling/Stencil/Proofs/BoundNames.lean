import Mathlib.Data.List.Forall2
import Stencil.Proofs.CompiledAttributes
import Stencil.Proofs.Conditions
import Stencil.Template.Compile

/-! Names that a template binds itself. Before a walk they are reserved, wherever in the markup they
stand; from then on every variable and condition of such a name, and every marker, in whatever order the
walk comes to them, has the one key of that name. -/
namespace Stencil

open Markup (Node Element)

namespace Template

/-- The element is a variable or a condition of this name. -/
def Names (e : Element) (name : String) : Prop :=
  name ≠ "" ∧ (e.tag = variableTag ∧ Text.trim (e.authored "key") = name ∨
    e.tag = conditionTag ∧
      (Condition.parse? (Text.trim (e.authored "key"))).map (·.key) = some name)

mutual

def elementsOf : Node → List Element
  | .element e children => e :: elements children
  | _ => []

/-- Every element of the markup, in document order. -/
def elements : List Node → List Element
  | [] => []
  | n :: rest => elementsOf n ++ elements rest

end

mutual

theorem boundKeysOf_eq : (n : Node) → boundKeysOf n = (elementsOf n).filterMap boundKey?
  | .element e children => by
    rw [boundKeysOf, elementsOf, boundKeys_eq children, List.filterMap_cons]
    cases boundKey? e <;> rfl
  | .text _ => rfl
  | .comment _ => rfl

theorem boundKeys_eq : (nodes : List Node) → boundKeys nodes = (elements nodes).filterMap boundKey?
  | [] => rfl
  | n :: rest => by
    rw [boundKeys, elements, boundKeysOf_eq n, boundKeys_eq rest, List.filterMap_append]

end

/-- A name that the walk reads off an element is one that was collected before it. -/
theorem boundKey?_of_names {e : Element} {name : String} (named : Names e name) :
    boundKey? e = some name := by
  obtain ⟨-, ⟨tag, key⟩ | ⟨tag, key⟩⟩ := named
  · simp [boundKey?, tag, key]
  · have other : ¬(conditionTag == variableTag) = true := by decide
    rw [Condition.parse?_trim] at key
    simp [boundKey?, tag, other, key]

theorem trim_of_names {e : Element} {name : String} (named : Names e name) : Text.trim name = name := by
  obtain ⟨-, ⟨-, rfl⟩ | ⟨-, key⟩⟩ := named
  · exact Text.trim_trim _
  · obtain ⟨c, parsed, rfl⟩ := Option.map_eq_some_iff.mp key
    rw [(Condition.key_of_parse? parsed).1, Text.trim_trim]

end Template

namespace Registry

theorem reserved_reserve (r : Registry) (name : String) :
    (r.reserve name).reserved =
      if Text.trim name = "" then r.reserved else Text.trim name :: r.reserved := by
  by_cases blank : Text.trim name = "" <;> simp [reserve, blank]

theorem mem_foldl_reserve {r : Registry} {names : List String} {name : String} (nonempty : name ≠ "")
    (trimmed : Text.trim name = name) (member : name ∈ r.reserved ∨ name ∈ names) :
    name ∈ (names.foldl reserve r).reserved := by
  induction names generalizing r with
  | nil => simpa using member
  | cons first rest ih =>
    rw [List.foldl_cons]
    refine ih ?_
    rw [reserved_reserve]
    rcases member with old | new
    · left
      split
      · exact old
      · exact List.mem_cons_of_mem _ old
    · rcases List.mem_cons.mp new with rfl | later
      · left
        simp [trimmed, nonempty]
      · exact Or.inr later

end Registry

namespace Marker

variable {plain : KeyType} {tag : String} {r r' : Registry}

/-- The key of a marker is registered, and under its own name if that is reserved. -/
theorem key_of_register {m : Marker} {b : Binding} (done : m.register plain tag r = .ok (b, r')) :
    b.key ∈ r'.names ∧ (Text.trim m.key ∈ r.reserved → b.key = Text.trim m.key) := by
  obtain ⟨key, called, rfl⟩ := called_of_register done
  by_cases blank : Text.trim m.key = ""
  · have refused := Registry.Entry.call_blank .registerMarker r
      { type := m.keyType plain, optional := m.optional, tag := some tag } blank
    exact absurd (called.symm.trans refused) (by simp)
  · obtain ⟨own, registry, known, registers, -, reserved⟩ := r.registerMarker_eq_ok
      { type := m.keyType plain, optional := m.optional, tag := some tag } blank
    rw [known] at called
    cases called
    exact ⟨(registers.mem_names _).mpr (Or.inr rfl), reserved⟩

theorem keys_of_registerAll {markers : List Marker} {bindings : List Binding} {name : String}
    (reserved : name ∈ r.reserved) (done : registerAll plain tag markers r = .ok (bindings, r')) :
    List.Forall₂ (fun m b => Text.trim m.key = name → b.key = name ∧ name ∈ r'.names) markers bindings := by
  induction markers generalizing r bindings with
  | nil =>
    cases done
    exact .nil
  | cons m rest ih =>
    obtain ⟨binding, middle, others, first, later, rfl⟩ := registerAll_cons done
    have kept := register_later first
    have grown := registerAll_later later
    refine .cons ?_ (ih (kept.reserved ▸ reserved) later)
    intro same
    obtain ⟨registered, own⟩ := key_of_register first
    have key := (own (same ▸ reserved)).trans same
    exact ⟨key, grown.names.subset (key ▸ registered)⟩

theorem length_registerAll {markers : List Marker} {bindings : List Binding}
    (done : registerAll plain tag markers r = .ok (bindings, r')) : bindings.length = markers.length := by
  induction markers generalizing r bindings with
  | nil =>
    cases done
    rfl
  | cons m rest ih =>
    obtain ⟨binding, middle, others, first, later, rfl⟩ := registerAll_cons done
    exact congrArg (· + 1) (ih later)

end Marker

namespace Attribute

theorem read_ofElement (e : Element) (name : String) :
    Markup.Access.ofElement.read name e = (.ok (e.authored name), e) := by
  have kept : Markup.Access.ofElement.pristine? name e = (.ok (e.pristine? name), e) := rfl
  unfold Markup.Access.read Markup.Element.authored
  rw [bind_apply, kept]
  cases e.pristine? name with
  | none => rfl
  | some pristine =>
    dsimp only
    cases pristine.isEmpty <;> rfl

theorem onNode_read_ofElement {name raw : String} {s t : Compiling Element}
    (done : onNode (Markup.Access.ofElement.read name) s = (.ok raw, t)) :
    raw = s.node.authored name ∧ s = t := by
  unfold onNode at done
  rw [read_ofElement] at done
  cases done
  exact ⟨rfl, rfl⟩

/-- The attribute has a binding for each marker of its value, and those of this name have the key of this
name. -/
def Carries (name : String) (r : Registry) (raw : String) (a : Attribute) : Prop :=
  ∃ markers, Marker.parse raw = .ok (a.text, markers) ∧
    List.Forall₂ (fun m b => Text.trim m.key = name → b.key = name ∧ name ∈ r.names) markers a.bindings

/-- Authored attributes, as far as they were read, have the static text of their values, and bindings as
registering the markers of one value gives them. -/
theorem authored_binds {P : List Marker → List Binding → Prop} {tag : String} {names : List String}
    {s s' : Compiling Element} {attributes : List Attribute}
    (registered : ∀ plain markers bindings r r', Registry.Later s.registry r →
      Registry.Later r' s'.registry → Marker.registerAll plain tag markers r = .ok (bindings, r') →
      P markers bindings)
    (done : authored Markup.Access.ofElement tag names s = (.ok attributes, s')) :
    List.Forall₂ (fun name a => a.name = name ∧ ∃ markers,
      Marker.parse (s.node.authored name) = .ok (a.text, markers) ∧ P markers a.bindings)
      names attributes := by
  induction names generalizing s attributes with
  | nil =>
    cases done
    exact .nil
  | cons name rest ih =>
    obtain ⟨raw, t, text, bindings, registry, later, read, valued, further, rfl⟩ := authored_cons done
    obtain ⟨rfl, rfl⟩ := onNode_read_ofElement read
    have kept := readValue_later valued
    have grown := stepwise_grows.authored Markup.Access.ofElement tag rest { s with registry }
    rw [further] at grown
    obtain ⟨markers, parsed, here⟩ := readValue_eq_ok valued
    have others := ih (s := { s with registry })
      (fun plain markers bindings r r' after => registered plain markers bindings r r' (kept.trans after))
      further
    exact .cons ⟨rfl, markers, parsed, registered _ _ _ _ _ (.refl _) grown here⟩ others

theorem authored_carries {tag key : String} {names : List String} {s s' : Compiling Element}
    {attributes : List Attribute} (reserved : key ∈ s.registry.reserved)
    (done : authored Markup.Access.ofElement tag names s = (.ok attributes, s')) :
    List.Forall₂ (fun name a => a.name = name ∧ Carries key s'.registry (s.node.authored name) a)
      names attributes := by
  refine authored_binds (fun plain markers bindings r r' before after here => ?_) done
  refine (Marker.keys_of_registerAll (before.reserved ▸ reserved) here).imp fun m b own same => ?_
  exact ⟨(own same).1, after.names.subset (own same).2⟩

theorem find?_put (attributes : List Attribute) (a : Attribute) (name : String) :
    find? (put attributes a) name = if a.name = name then some a else find? attributes name := by
  induction attributes with
  | nil => by_cases same : a.name = name <;> simp [put, find?, same]
  | cons b rest ih =>
    unfold put
    by_cases here : b.name = a.name
    · by_cases same : a.name = name <;> simp [find?, here, same]
    · by_cases same : b.name = name
      · have other : a.name ≠ name := fun equal => here (same.trans equal.symm)
        simp [find?, same, other, Ne.symm other]
      · simpa [find?, here, same] using ih

/-- Binding the ids of other attributes, or of one without ids, changes nothing about an attribute. -/
theorem find?_bindIds {σ : Type} {tag name : String} {ids : List String} {attributes bound : List Attribute}
    {a : Attribute} {s s' : Compiling σ} (found : find? attributes name = some a)
    (plain : name ∈ ids → a.text = "") (done : bindIds tag ids attributes s = (.ok bound, s')) :
    find? bound name = some a := by
  induction ids generalizing attributes s with
  | nil =>
    cases done
    exact found
  | cons id rest ih =>
    have later : name ∈ rest → a.text = "" := fun member => plain (List.mem_cons_of_mem id member)
    obtain ⟨done, -⟩ | ⟨bearer, bindings, t, known, own, filled, -, done⟩ := bindIds_cons done
    · exact ih found later done
    · refine ih ?_ later done
      have other : id ≠ name := by
        rintro rfl
        rw [found] at known
        cases known
        exact filled (plain (List.mem_cons_self ..))
      rw [find?_put]
      simp [own, other, found]

/-- A default takes no place that the author bound. -/
theorem find?_applyAll {tag name : String} {defaults : List Default} {attributes full : List Attribute}
    {r r' : Registry} {a : Attribute} (found : find? attributes name = some a) (bound : a.bindings ≠ [])
    (done : Default.applyAll tag defaults attributes r = (.ok full, r')) : find? full name = some a := by
  induction defaults generalizing attributes r with
  | nil =>
    cases done
    exact found
  | cons d rest ih =>
    obtain ⟨next, registry, applied, done⟩ := Default.applyAll_cons done
    refine ih ?_ done
    rcases Default.apply_cases applied with ⟨-, rfl, rfl⟩ | ⟨free, key, -, rfl⟩
    · exact found
    · have other : d.attributeName ≠ name := by
        rintro rfl
        simp [Default.isBound, found, isStatic, bound] at free
      rw [find?_put]
      simp [Default.replacement, other, found]

theorem find?_apply_of_other {tag name : String} {d : Default} {attributes full : List Attribute}
    {r r' : Registry} (other : d.attributeName ≠ name) (done : d.apply tag attributes r = .ok (full, r')) :
    find? full name = find? attributes name := by
  rcases Default.apply_cases done with ⟨-, rfl, rfl⟩ | ⟨-, key, -, rfl⟩
  · rfl
  · rw [find?_put]
    exact if_neg other

theorem find?_applyAll_of_other {tag name : String} {defaults : List Default}
    {attributes full : List Attribute} {r r' : Registry} (other : ∀ d ∈ defaults, d.attributeName ≠ name)
    (done : Default.applyAll tag defaults attributes r = (.ok full, r')) :
    find? full name = find? attributes name := by
  induction defaults generalizing attributes r with
  | nil =>
    cases done
    rfl
  | cons d rest ih =>
    obtain ⟨next, registry, applied, done⟩ := Default.applyAll_cons done
    rw [ih (fun later member => other later (List.mem_cons_of_mem d member)) done]
    exact find?_apply_of_other (other d (List.mem_cons_self ..)) applied

/-- The attribute, which is left out when it is empty if it is the length limit of a text box. -/
def limited (tag : String) (type : Option String) (a : Attribute) : Attribute :=
  { a with omittedIfEmpty :=
      a.omittedIfEmpty || (tag == "input" && Default.isTextBox type && a.name == "maxlength") }

theorem limited_of_other {a : Attribute} (other : a.name ≠ "maxlength") (tag : String)
    (type : Option String) : limited tag type a = a := by
  simp [limited, beq_false_of_ne other]

theorem find?_omitEmptyLimit {tag name : String} {type : Option String} {attributes : List Attribute}
    {a : Attribute} (found : find? attributes name = some a) :
    find? (Default.omitEmptyLimit tag type attributes) name = some (limited tag type a) := by
  have own : a.name = name := by simpa using List.find?_some found
  unfold Default.omitEmptyLimit
  split
  · rename_i limit known
    have limits : limit.name = "maxlength" := by simpa using List.find?_some known
    split
    · rename_i box
      rw [find?_put]
      by_cases same : limit.name = name
      · obtain rfl : limit = a := Option.some.inj (known.symm.trans (limits ▸ same ▸ found))
        rw [if_pos same]
        simp [limited, box, limits]
      · rw [if_neg same, found, limited_of_other fun limit => same (limits.trans (limit.symm.trans own))]
    · rename_i other
      rw [found]
      simp [limited, other]
  · rename_i none
    have apart : a.name ≠ "maxlength" := by
      intro limit
      rw [← limit, own, found] at none
      cases none
    rw [found, limited_of_other apart]

theorem find?_of_forall₂ {P : String → Attribute → Prop} {names : List String}
    {attributes : List Attribute} {name : String}
    (all : List.Forall₂ (fun name a => a.name = name ∧ P name a) names attributes) (member : name ∈ names) :
    ∃ a, find? attributes name = some a ∧ P name a := by
  induction all with
  | nil => simp at member
  | @cons first a rest others here later ih =>
    by_cases same : first = name
    · subst same
      exact ⟨a, by simp [find?, here.1], here.2⟩
    · have inside : name ∈ rest := (List.mem_cons.mp member).resolve_left (Ne.symm same)
      obtain ⟨b, found, holds⟩ := ih inside
      refine ⟨b, ?_, holds⟩
      simpa [find?, here.1, same] using found

/-- The defaults of a tag leave an attribute that has bindings, and one that the tag does not offer, but for
the limit of a text box. -/
theorem find?_withDefaults {σ : Type} {tag name : String} {attributes full : List Attribute} {a : Attribute}
    {s s' : Compiling σ} (found : find? attributes name = some a)
    (kept : a.bindings ≠ [] ∨ ∀ d ∈ Default.forTag tag attributes, d.attributeName ≠ name)
    (done : withDefaults tag attributes s = (.ok full, s')) :
    find? full name = some (limited tag (Default.literal? attributes "type") a) := by
  obtain ⟨offered, applied, rfl⟩ := withDefaults_eq_ok done
  refine find?_omitEmptyLimit ?_
  rcases kept with bound | other
  · exact find?_applyAll found bound applied
  · rw [find?_applyAll_of_other other applied, found]

/-- A compiled attribute has the bindings of the markers of its value. Only ids written beside markers,
where an attribute holds ids, come in their place. -/
theorem compile_binds {P : List Marker → List Binding → Prop} {e : Element} {template name text : String}
    {r : Registry} {full : List Attribute} {after : Compiling Element} {markers : List Marker}
    (registered : ∀ plain markers bindings r' r'', Registry.Later r r' →
      Registry.Later r'' after.registry →
      Marker.registerAll plain (Text.toLowerAscii e.tag) markers r' = .ok (bindings, r'') →
      P markers bindings)
    (done : compile Markup.Access.ofElement e.tag template { node := e, registry := r } = (.ok full, after))
    (member : name ∈ e.attrs.map (·.name)) (parsed : Marker.parse (e.authored name) = .ok (text, markers))
    (nonempty : markers ≠ []) (plain : name ∈ idAttributes → text = "") :
    ∃ a, find? full name = some a ∧ a.text = text ∧ P markers a.bindings := by
  obtain ⟨names, start, written, t, bound, u, named, read, tied, completed⟩ :=
    compileAll_eq_ok (compile_eq_ok done)
  cases named
  have idsLater := stepwise_grows.bindIds (Text.toLowerAscii e.tag) idAttributes written t
  have defaultsLater := grows_withDefaults (Text.toLowerAscii e.tag) bound u
  rw [tied] at idsLater
  rw [completed] at defaultsLater
  have listed : name ∈ sortNames (e.attrs.map (·.name)) := List.mem_mergeSort.mpr member
  have binds := authored_binds (P := fun markers bindings =>
      bindings.length = markers.length ∧ P markers bindings)
    (fun plain markers bindings r' r'' before later here => ⟨Marker.length_registerAll here,
      registered plain markers bindings r' r'' before (later.trans (idsLater.trans defaultsLater)) here⟩) read
  obtain ⟨a, found, others, same, count, bindings⟩ := find?_of_forall₂ binds listed
  obtain ⟨rfl, rfl⟩ : text = a.text ∧ markers = others := by
    simpa using parsed.symm.trans same
  have some : a.bindings ≠ [] := by
    intro none
    rw [none] at count
    exact nonempty (List.eq_nil_of_length_eq_zero count.symm)
  have kept := find?_withDefaults (find?_bindIds found plain tied) (.inl some) completed
  exact ⟨_, kept, rfl, bindings⟩

/-- Compiled attributes carry their markers. -/
theorem compile_carries {e : Element} {template key name text : String} {r : Registry}
    {full : List Attribute} {after : Compiling Element} {markers : List Marker}
    (reserved : key ∈ r.reserved)
    (done : compile Markup.Access.ofElement e.tag template { node := e, registry := r } = (.ok full, after))
    (member : name ∈ e.attrs.map (·.name)) (parsed : Marker.parse (e.authored name) = .ok (text, markers))
    (nonempty : markers ≠ []) (plain : name ∈ idAttributes → text = "") :
    ∃ a, find? full name = some a ∧ Carries key after.registry (e.authored name) a := by
  have carried : ∀ plain markers bindings r' r'', Registry.Later r r' →
      Registry.Later r'' after.registry →
      Marker.registerAll plain (Text.toLowerAscii e.tag) markers r' = .ok (bindings, r'') →
      List.Forall₂ (fun m b => Text.trim m.key = key → b.key = key ∧ key ∈ after.registry.names)
        markers bindings := by
    intro plain markers bindings r' r'' before later here
    refine (Marker.keys_of_registerAll (before.reserved ▸ reserved) here).imp fun m b own same => ?_
    exact ⟨(own same).1, later.names.subset (own same).2⟩
  obtain ⟨a, found, same, keys⟩ := compile_binds carried done member parsed nonempty plain
  exact ⟨a, found, markers, same ▸ parsed, keys⟩

end Attribute

namespace Walk

variable {τ α β : Type} {c : Context τ}

/-- A walk over the nodes from a state comes to an element in another state, whether or not it ends well
after that. What stands inside a variable is not walked. -/
inductive Reaches (c : Context τ) : List Node → τ → Element → List Node → τ → Prop where
  | here (e children rest s) : Reaches c (.element e children :: rest) s e children s
  | after {n rest s t e children u} : (walkNode c n s).outcome = .ok ((), t) →
      Reaches c rest t e children u → Reaches c (n :: rest) s e children u
  | insideCondition {outer inner rest s t e children u} : outer.tag = conditionTag →
      (openCondition c outer s).outcome = .ok ((), t) → Reaches c inner t e children u →
      Reaches c (.element outer inner :: rest) s e children u
  | insideElement {outer inner rest s name t e children u} : outer.tag ≠ variableTag →
      outer.tag ≠ conditionTag → outer.isLeaf = false →
      (openElement c outer s).outcome = .ok (name, t) → Reaches c inner t e children u →
      Reaches c (.element outer inner :: rest) s e children u

theorem Reaches.later (lawful : c.target.Lawful) {nodes children : List Node} {s t : τ} {e : Element}
    (reached : Reaches c nodes s e children t) :
    Registry.Later (c.target.registry s) (c.target.registry t) := by
  induction reached with
  | here => exact Registry.Later.refl _
  | after walked _ ih => exact (grows_walkNode lawful _ _ _ _ walked).trans ih
  | insideCondition _ opened _ ih => exact (grows_openCondition lawful _ _ _ _ opened).trans ih
  | insideElement _ _ _ opened _ ih => exact (grows_openElement lawful _ _ _ _ opened).trans ih

theorem bind_of_ok {x : WalkM τ α} {f : α → WalkM τ β} {s t : τ} {a : α} (done : x s = .ok (a, t)) :
    (x >>= f) s = f a t := by
  change Reported.bind (x s) _ = _
  rw [done]
  rfl

theorem requiredKey_eq {e : Element} (nonempty : Text.trim (e.authored "key") ≠ "") (s : τ) :
    requiredKey c e s = .ok (Text.trim (e.authored "key"), s) := by
  have some : ¬(Text.trim (e.authored "key")).isEmpty = true := by simpa using nonempty
  simp only [requiredKey, if_neg some]
  rfl

theorem share_named {name : String} (nonempty : name ≠ "") (trimmed : Text.trim name = name)
    (type : KeyType) (s : τ) :
    ∃ r : Registry, name ∈ r.names ∧ share c name type s = .ok (name, c.target.withRegistry r s) := by
  have nonblank : Text.trim name ≠ "" := by rwa [trimmed]
  obtain ⟨r, shared, registers⟩ := (c.target.registry s).share_eq_ok
    { type, optional := true, tag := none } nonblank
  rw [trimmed] at shared registers
  refine ⟨r, (registers.mem_names name).mpr (Or.inr rfl), ?_⟩
  simp only [share, shared]

/-- A variable is written under its own name, which is then registered. -/
theorem addVariable_named {e : Element} {name : String} (named : Template.Names e name)
    (tag : e.tag = variableTag) (children : List Node) (s : τ) :
    ∃ r : Registry, name ∈ r.names ∧ addVariable c e children s =
      .ok ((), c.target.addVariable name (Node.renderAll children) (c.target.withRegistry r s)) := by
  have trimmed := Template.trim_of_names named
  obtain ⟨nonempty, ⟨-, key⟩ | ⟨other, -⟩⟩ := named
  · obtain ⟨r, registered, shared⟩ := share_named (c := c) nonempty trimmed .node s
    refine ⟨r, registered, ?_⟩
    have required := requiredKey_eq (c := c) (key ▸ nonempty : Text.trim (e.authored "key") ≠ "") s
    rw [key] at required
    unfold addVariable
    rw [bind_of_ok required, bind_of_ok shared]
    rfl
  · exact absurd (tag.symm.trans other) (by decide)

/-- A condition is opened on its own name, which is then registered. -/
theorem openCondition_named {e : Element} {name : String} (named : Template.Names e name)
    (tag : e.tag = conditionTag) (s : τ) :
    ∃ (r : Registry) (condition : Condition), name ∈ r.names ∧ condition.key = name ∧
      Condition.parse? (Text.trim (e.authored "key")) = some condition ∧
      (∀ u, c.target.openCondition condition (c.target.withRegistry r s) = .ok u →
        openCondition c e s = .ok ((), u)) ∧
      ∀ reason, c.target.openCondition condition (c.target.withRegistry r s) = .error reason →
        openCondition c e s = .error (.format c.template reason) := by
  have trimmed := Template.trim_of_names named
  obtain ⟨nonempty, ⟨other, -⟩ | ⟨-, key⟩⟩ := named
  · exact absurd (tag.symm.trans other) (by decide)
  · obtain ⟨condition, parsed, rfl⟩ := Option.map_eq_some_iff.mp key
    obtain ⟨r, registered, shared⟩ := share_named (c := c) nonempty trimmed .string s
    have nonblank : Text.trim (e.authored "key") ≠ "" := by
      intro empty
      rw [empty] at parsed
      cases parsed
    refine ⟨r, condition, registered, rfl, parsed, ?_⟩
    unfold openCondition
    rw [bind_of_ok (requiredKey_eq nonblank s), parsed]
    dsimp only
    rw [bind_of_ok shared]
    constructor
    · intro u opened
      rw [opened]
    · intro reason refused
      rw [refused]

end Walk

namespace Template

def context (t : Template) (rules : List Style.Rule) : Walk.Context Draft :=
  { target := Draft.target, template := t.id, rules }

/-- The draft that the walk of a format starts from, with the names of the template reserved. -/
def start (t : Template) (options : Option ComponentOptions) (roots : List Node) (format : Format) :
    Draft :=
  let draft := Draft.start format t.id options
  draft.withRegistry ((boundKeys roots).foldl Registry.reserve draft.registry)

theorem compileTo_eq (t : Template) (options : Option ComponentOptions) (roots : List Node)
    (rules : List Style.Rule) (format : Format) :
    t.compileTo options roots rules format = (do
      let (_, draft) ← Walk.walk (t.context rules) roots (t.start options roots format)
      return draft.files t.css (hasMultipleRoots roots)) := by
  unfold compileTo
  rfl

theorem mem_start_reserved (t : Template) (options : Option ComponentOptions) {roots : List Node}
    (format : Format) {e : Element} {name : String} (member : e ∈ elements roots) (named : Names e name) :
    name ∈ (t.start options roots format).registry.reserved := by
  have collected : name ∈ boundKeys roots := by
    rw [boundKeys_eq]
    exact List.mem_filterMap.mpr ⟨e, member, boundKey?_of_names named⟩
  unfold start
  rw [show ∀ r d, (Draft.withRegistry r d).registry = r from Draft.target_lawful.registry_withRegistry]
  exact Registry.mem_foldl_reserve named.1 (trim_of_names named) (Or.inr collected)

/-- A name that some variable or condition of a template has is the name of one key in every format. The
files of a format come from one walk, and wherever that walk gets to, every variable and condition of
the name is written under it, and every attribute read so far, and every attribute compiled, has for its
markers of the name bindings to it; each time the key of the name is registered. -/
theorem bound_name_is_one_key (t : Template) (options : Option ComponentOptions) (roots : List Node)
    (rules : List Style.Rule) (format : Format) {origin : Element} {name : String}
    (member : origin ∈ elements roots) (named : Names origin name) :
    t.compileTo options roots rules format = (do
      let (_, draft) ← Walk.walk (t.context rules) roots (t.start options roots format)
      return draft.files t.css (hasMultipleRoots roots)) ∧
    ∀ e children s, Walk.Reaches (t.context rules) roots (t.start options roots format) e children s →
      (Names e name → e.tag = variableTag → ∃ r : Registry, name ∈ r.names ∧
        Walk.addVariable (t.context rules) e children s =
          .ok ((), (s.withRegistry r).addVariable name (Node.renderAll children))) ∧
      (Names e name → e.tag = conditionTag → ∃ (r : Registry) (condition : Condition), name ∈ r.names ∧
        condition.key = name ∧ Condition.parse? (Text.trim (e.authored "key")) = some condition ∧
        (∀ u, (s.withRegistry r).openCondition condition = .ok u →
          Walk.openCondition (t.context rules) e s = .ok ((), u)) ∧
        ∀ reason, (s.withRegistry r).openCondition condition = .error reason →
          Walk.openCondition (t.context rules) e s = .error (.format t.id reason)) ∧
      (∀ tag names attributes after, Attribute.authored Markup.Access.ofElement tag names
          { node := e, registry := s.registry } = (.ok attributes, after) →
        List.Forall₂ (fun label a => a.name = label ∧
          Attribute.Carries name after.registry (e.authored label) a) names attributes) ∧
      (∀ full after, Attribute.compile Markup.Access.ofElement e.tag t.id
          { node := e, registry := s.registry } = (.ok full, after) →
        ∀ label ∈ e.attrs.map (·.name), ∀ text markers,
          Marker.parse (e.authored label) = .ok (text, markers) → markers ≠ [] →
          (label ∈ Attribute.idAttributes → text = "") →
          ∃ a, Attribute.find? full label = some a ∧
            Attribute.Carries name after.registry (e.authored label) a) := by
  refine ⟨t.compileTo_eq options roots rules format, ?_⟩
  intro e children s reached
  have reserved : name ∈ s.registry.reserved := by
    have later := reached.later Draft.target_lawful
    rw [show s.registry.reserved = _ from later.reserved]
    exact mem_start_reserved t options format member named
  refine ⟨?_, ?_, ?_, ?_⟩
  · intro own tag
    exact Walk.addVariable_named own tag children s
  · intro own tag
    exact Walk.openCondition_named (c := t.context rules) own tag s
  · intro tag names attributes after done
    exact Attribute.authored_carries (s := { node := e, registry := s.registry }) reserved done
  · intro full after done label listed text markers parsed nonempty plain
    exact Attribute.compile_carries reserved done listed parsed nonempty plain

/-- A variable that comes before the condition of its name. -/
theorem bound_name_is_one_key_before_condition :
    let value : Element := { tag := variableTag, attrs := [⟨"key", " size"⟩] }
    let condition : Element := { tag := conditionTag, attrs := [⟨"key", " size ?= large"⟩] }
    let roots : List Node := [.text "a", .element value [], .element condition []]
    let t : Template := { id := "button", html := "" }
    condition ∈ elements roots ∧ Names condition "size" ∧
      ∃ s, Walk.Reaches (t.context []) roots (t.start none roots .mustache) value [] s ∧
        ∃ r : Registry, "size" ∈ r.names ∧ Walk.addVariable (t.context []) value [] s =
          .ok ((), (s.withRegistry r).addVariable "size" "") := by
  intro value condition roots t
  have member : condition ∈ elements roots := by decide
  have named : Names condition "size" := ⟨by decide, Or.inr ⟨rfl, by decide⟩⟩
  have reached : Walk.Reaches (t.context []) roots (t.start none roots .mustache) value [] _ :=
    .after rfl (.here ..)
  obtain ⟨-, bound⟩ := bound_name_is_one_key t none roots [] .mustache member named
  obtain ⟨written, -⟩ := bound value [] _ reached
  exact ⟨member, named, _, reached, written ⟨by decide, Or.inl ⟨rfl, by decide⟩⟩ rfl⟩

end Template

end Stencil
