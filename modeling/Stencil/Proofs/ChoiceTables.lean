import Mathlib.Data.List.Flatten
import Stencil.Proofs.Entries
import Stencil.Proofs.KeysGivenOnce
import Stencil.Proofs.WalkSteps

/-! The tables of a finished draft. Opening an element records the options of its attributes, each list
under its key, and a later list under the same key takes the place of an earlier one. So at the end the
table of a key is that of the last options rendered under it. A key that the template does not bind
itself is given to one marker only, and then these are the marker's own. -/
namespace Stencil

open Markup (Node Element)

namespace LogicLess.Lookup

open Binding (optionsUnder)

theorem get?_recordBinding (lookup : Lookup) (b : Binding) (key : String) :
    Entries.get? (recordBinding lookup b) key =
      ((optionsUnder key [b]).getLast?.map Choice.table).or (Entries.get? lookup key) := by
  unfold recordBinding optionsUnder
  split
  · rename_i options type
    by_cases same : b.key = key <;> simp [Entries.get?_put, same, type, KeyType.options?]
  · rename_i plain
    have none : b.type.options? = none := by
      cases type : b.type <;> simp_all [KeyType.options?]
    simp [none]

/-- The table of a key is that of the last options recorded under it. -/
theorem get?_foldl_recordBinding_eq (bindings : List Binding) (lookup : Lookup) (key : String) :
    Entries.get? (bindings.foldl recordBinding lookup) key =
      ((optionsUnder key bindings).getLast?.map Choice.table).or (Entries.get? lookup key) := by
  induction bindings generalizing lookup with
  | nil => rfl
  | cons b rest ih =>
    have split : optionsUnder key (b :: rest) = optionsUnder key [b] ++ optionsUnder key rest :=
      Binding.optionsUnder_append key [b] rest
    rw [List.foldl_cons, ih, get?_recordBinding, split, List.getLast?_append]
    cases (optionsUnder key rest).getLast? <;> rfl

end LogicLess.Lookup

namespace Draft

open LogicLess.Lookup (recordBinding)

/-- The values of options by key and option name. -/
def tables : Draft → Entries (Entries String)
  | logicLess d => d.lookup
  | component d => d.constants

/-- Whether the draft writes the attribute as one that looks its options up. -/
def reads : Draft → Attribute → Bool
  | logicLess d, _ => d.dialect = .mustache
  | component d, a => Component.readsOptions a && !(d.isStyled && a.name == "class")

/-- The bindings whose options the draft records for an element with these attributes. -/
def recorded (d : Draft) (attributes : List Attribute) : List Binding :=
  (attributes.filter d.reads).flatMap (·.bindings)

end Draft

namespace LogicLess

open Lookup (recordBinding)

theorem Lookup.foldl_record (attributes : List Attribute) (lookup : Lookup) :
    attributes.foldl Lookup.record lookup =
      (attributes.flatMap (·.bindings)).foldl recordBinding lookup := by
  induction attributes generalizing lookup with
  | nil => rfl
  | cons a rest ih =>
    rw [List.foldl_cons, List.flatMap_cons, List.foldl_append, ih]
    rfl

end LogicLess

namespace Component.Draft

open LogicLess.Lookup (recordBinding)

theorem foldl_recordConstants (attributes : List Attribute) (constants : Entries (Entries String)) :
    attributes.foldl recordConstants constants =
      ((attributes.filter readsOptions).flatMap (·.bindings)).foldl recordBinding constants := by
  induction attributes generalizing constants with
  | nil => rfl
  | cons a rest ih =>
    rw [List.foldl_cons, ih]
    unfold recordConstants
    by_cases reads : readsOptions a = true
    · rw [if_pos reads, List.filter_cons_of_pos reads, List.flatMap_cons, List.foldl_append]
      rfl
    · rw [if_neg reads, List.filter_cons_of_neg reads]

theorem readsOptions_of_mem_handlersFor {tag : String} {attributes : List Attribute}
    {wanted : String × KeyType} (member : wanted ∈ handlersFor tag attributes) :
    isHandler wanted.1 = true := by
  unfold handlersFor at member
  dsimp only at member
  rcases List.mem_append.mp member with control | pressed
  · split at control
    · rcases List.mem_pair.mp control with rfl | rfl <;> decide
    · cases control
  · split at pressed
    · rcases List.mem_singleton.mp pressed with rfl
      decide
    · cases pressed

theorem not_readsOptions_of_handlers {tag : String} {wanted : List (String × KeyType)} {r r' : Registry}
    {added : List Attribute} (all : ∀ w ∈ wanted, isHandler w.1 = true)
    (done : handlers tag wanted r = .ok (added, r')) : ∀ a ∈ added, readsOptions a = false := by
  intro a member
  have named : a.name ∈ wanted.map (·.1) := names_handlers done ▸ List.mem_map_of_mem member
  obtain ⟨w, known, same⟩ := List.mem_map.mp named
  simp [readsOptions, ← same, all w known]

theorem styleElement_constants (d : Draft) (tagName tag : String) (rules : StyledRules) :
    (d.styleElement tagName tag rules).2.constants = d.constants ∧
      (d.styleElement tagName tag rules).2.options = d.options := by
  unfold styleElement
  split <;> exact ⟨rfl, rfl⟩

/-- The options of the attributes that are written, apart from those of handlers. -/
theorem constants_openElement {d d' : Draft} {tag name : String} {attributes : List Attribute}
    {rules : List Style.Rule} {selfClosing : Bool}
    (done : (d.openElement tag attributes rules selfClosing).outcome = .ok (name, d')) :
    d'.constants = ((attributes.filter (Stencil.Draft.component d).reads).flatMap (·.bindings)).foldl
        recordBinding d.constants ∧ d'.options = d.options := by
  obtain ⟨added, registry, props, after, handled, styled, rfl⟩ := styled_of_openElement done
  have apart := not_readsOptions_of_handlers (fun _ => readsOptions_of_mem_handlersFor) handled
  obtain ⟨constants, options⟩ := ({ d with registry } : Draft).styleElement_constants tag
    (Text.toLowerAscii tag) (StyledRules.ofRules rules (Attribute.find? (attributes ++ added) "class"))
  rw [styled] at constants options
  dsimp only at constants options
  have same : after.isStyled = d.isStyled := by unfold isStyled; rw [options]
  refine ⟨?_, options⟩
  change List.foldl recordConstants after.constants _ = _
  have none : added.filter (fun a => readsOptions a && !(after.isStyled && a.name == "class")) = [] :=
    List.filter_eq_nil_iff.mpr fun a member => by simp [apart a member]
  rw [constants, foldl_recordConstants, List.filter_filter, List.filter_append, none, List.append_nil, same]
  rfl

end Component.Draft

namespace Draft

open LogicLess.Lookup (recordBinding)

theorem tables_openElement {o : Opening} {d d' : Draft} {name : String}
    (done : (d.openElement o).outcome = .ok (name, d')) :
    d'.tables = (d.recorded o.attributes).foldl recordBinding d.tables ∧ d'.reads = d.reads := by
  cases d with
  | logicLess d =>
    cases done
    refine ⟨?_, rfl⟩
    unfold recorded
    cases dialect : d.dialect with
    | mustache =>
      have all : o.attributes.filter (logicLess d).reads = o.attributes :=
        List.filter_eq_self.mpr fun a _ => by simp [reads, dialect]
      rw [all]
      simp only [tables, LogicLess.Draft.openElement, LogicLess.Draft.append, dialect]
      exact LogicLess.Lookup.foldl_record o.attributes d.lookup
    | serverEmbed =>
      have none : o.attributes.filter (logicLess d).reads = [] :=
        List.filter_eq_nil_iff.mpr fun a _ => by simp [reads, dialect]
      rw [none]
      simp only [tables, LogicLess.Draft.openElement, LogicLess.Draft.append, dialect]
      rfl
  | component d =>
    obtain ⟨⟨shown, after⟩, opened, done⟩ := Reported.bind_eq_ok done
    cases done
    obtain ⟨constants, options⟩ := Component.Draft.constants_openElement opened
    refine ⟨constants, ?_⟩
    funext a
    simp [reads, Component.Draft.isStyled, options]

end Draft

namespace Walk

variable {τ : Type}

mutual

def metBy (c : Context τ) : Node → τ → List (Element × τ)
  | .element e children, s =>
    if e.tag == variableTag then []
    else if e.tag == conditionTag then
      match (openCondition c e s).outcome with
      | .ok (_, t) => met c children t
      | .error _ => []
    else
      (e, s) :: match (openElement c e s).outcome with
        | .ok (_, t) => if e.isLeaf then [] else met c children t
        | .error _ => []
  | _, _ => []

/-- The elements that a walk over the nodes comes to, variables and conditions apart, in document order,
each with the state the walk is in. -/
def met (c : Context τ) : List Node → τ → List (Element × τ)
  | [], _ => []
  | n :: rest, s =>
    metBy c n s ++
      match (walkNode c n s).outcome with
      | .ok (_, t) => met c rest t
      | .error _ => []

end

/-- The attributes of an element that is opened in this state. -/
def attributesIn (c : Context τ) (e : Element) (s : τ) : List Attribute :=
  match (attributes c e s).outcome with
  | .ok (full, _) => full
  | .error _ => []

/-- The bindings whose options a walk records, one element after the other. -/
def recorded (c : Context Draft) (nodes : List Node) (s : Draft) : List Binding :=
  (met c nodes s).flatMap fun (e, s) => s.recorded (attributesIn c e s)

end Walk

namespace Draft

open LogicLess.Lookup (recordBinding)
open Registry (Once)

/-- A part of a walk that records these bindings. -/
structure Records (d : Draft) (bindings : List Binding) (d' : Draft) : Prop where
  tables : d'.tables = bindings.foldl recordBinding d.tables
  reads : d'.reads = d.reads
  later : Registry.Later d.registry d'.registry
  once : ∀ key, key ∉ d.registry.reserved → Once key d.registry bindings d'.registry

variable {d d' d'' : Draft} {bindings others : List Binding}

theorem Records.of_same (tables : d'.tables = d.tables) (reads : d'.reads = d.reads)
    (later : Registry.Later d.registry d'.registry) : Records d [] d' :=
  ⟨tables, reads, later, fun _ _ => Once.of_plain later rfl⟩

theorem Records.trans (first : Records d bindings d') (second : Records d' others d'') :
    Records d (bindings ++ others) d'' := by
  refine ⟨?_, second.reads.trans first.reads, first.later.trans second.later, ?_⟩
  · rw [second.tables, first.tables, List.foldl_append]
  · intro key unreserved
    exact (first.once key unreserved).trans (second.once key (first.later.reserved ▸ unreserved))

theorem records_withRegistry {r : Registry} (later : Registry.Later d.registry r) :
    Records d [] (d.withRegistry r) := by
  cases d <;> exact .of_same rfl rfl later

theorem records_closeElement (name : String) (d : Draft) : Records d [] (d.closeElement name) := by
  cases d <;> exact .of_same rfl rfl (.refl _)

theorem records_addText (text : String) (d : Draft) : Records d [] (d.addText text) := by
  cases d <;> exact .of_same rfl rfl (.refl _)

theorem records_addVariable (key default : String) (d : Draft) :
    Records d [] (d.addVariable key default) := by
  cases d with
  | logicLess d =>
    change Records _ [] (.logicLess (d.addVariable key))
    unfold LogicLess.Draft.addVariable
    split <;> exact .of_same rfl rfl (.refl _)
  | component d =>
    change Records _ [] (.component (d.addVariable key default))
    unfold Component.Draft.addVariable
    split <;> exact .of_same rfl rfl (.refl _)

theorem records_openCondition {c : Condition} (opened : d.openCondition c = .ok d') :
    Records d [] d' := by
  rcases openCondition_eq_ok opened with ⟨d, text, rfl, -, rfl⟩ | ⟨d, rfl, rfl⟩
  · exact .of_same rfl rfl (.refl _)
  · exact .of_same rfl rfl (.refl _)

theorem records_closeCondition (d : Draft) : Records d [] d.closeCondition.2 := by
  cases d with
  | logicLess d =>
    change Records _ [] (.logicLess (d.closeCondition).2)
    unfold LogicLess.Draft.closeCondition
    split <;> exact .of_same rfl rfl (.refl _)
  | component d => exact .of_same rfl rfl (.refl _)

end Draft

namespace Walk

open Registry (Once)

variable {t : Template} {rules : List Style.Rule} {s u : Draft}

theorem attributesIn_eq {τ : Type} {c : Context τ} {s : τ} {e : Element} {full : List Attribute}
    {after : Attribute.Compiling Element}
    (made : Attribute.compile Markup.Access.ofElement e.tag c.template
      { node := e, registry := c.target.registry s } = (.ok full, after)) : attributesIn c e s = full := by
  unfold attributesIn attributes
  rw [made]

/-- Opening an element records its bindings, and gives keys that are not reserved once. -/
theorem records_openElement {e : Element} {name : String}
    (done : (openElement (t.context rules) e s).outcome = .ok (name, u)) :
    s.Records (s.recorded (attributesIn (t.context rules) e s)) u := by
  obtain ⟨full, after, made, opened⟩ := openElement_iff.mp done
  rw [attributesIn_eq made]
  change ((s.withRegistry after.registry).openElement _).outcome = _ at opened
  change Attribute.compile _ e.tag t.id { node := e, registry := s.registry } = _ at made
  have grown : Registry.Later s.registry after.registry := by
    have later := Attribute.compile_later Markup.Access.ofElement e.tag t.id
      { node := e, registry := s.registry }
    rwa [made] at later
  obtain ⟨tables, reads⟩ := Draft.tables_openElement opened
  obtain ⟨kept, still, later, -⟩ := Draft.records_withRegistry grown
  have further : Registry.Later (s.withRegistry after.registry).registry u.registry :=
    Draft.target_lawful.openElement _ _ _ _ opened
  refine ⟨?_, reads.trans still, later.trans further, ?_⟩
  · rw [tables, kept]
    unfold Draft.recorded
    rw [still]
    rfl
  · intro key unreserved
    rw [show (s.withRegistry after.registry).registry = after.registry from
      Draft.target_lawful.registry_withRegistry after.registry s] at further
    have fewer : (s.recorded full).Sublist (full.flatMap (·.bindings)) :=
      List.Sublist.flatMap List.filter_sublist _
    have once := (Attribute.once_compile unreserved made).mono further
    exact once.subperm (fewer.filterMap _).subperm

theorem records_addVariable {e : Element} {children : List Node}
    (done : (addVariable (t.context rules) e children s).outcome = .ok ((), u)) : s.Records [] u := by
  obtain ⟨-, key, r, shared, rfl⟩ := addVariable_iff.mp done
  have registered : s.Records [] (s.withRegistry r) :=
    Draft.records_withRegistry (Registry.Entry.later .share shared)
  exact registered.trans (Draft.records_addVariable key _ _)

theorem records_openCondition {e : Element}
    (done : (openCondition (t.context rules) e s).outcome = .ok ((), u)) : s.Records [] u := by
  obtain ⟨condition, key, r, -, shared, opened⟩ := openCondition_iff.mp done
  have registered : s.Records [] (s.withRegistry r) :=
    Draft.records_withRegistry (Registry.Entry.later .share shared)
  exact registered.trans (Draft.records_openCondition opened)

mutual

theorem records_walkNode : (n : Node) → {s u : Draft} →
    (walkNode (t.context rules) n s).outcome = .ok ((), u) →
    s.Records ((metBy (t.context rules) n s).flatMap fun (e, s) =>
      s.recorded (attributesIn (t.context rules) e s)) u
  | .text text, s, u, done => by
    cases done
    exact Draft.records_addText text s
  | .comment _, s, u, done => by
    cases done
    exact .of_same rfl rfl (.refl _)
  | .element e children, s, u, done => by
    unfold walkNode at done
    unfold metBy
    by_cases named : (e.tag == variableTag) = true
    · rw [if_pos named] at done ⊢
      exact records_addVariable done
    · rw [if_neg named] at done ⊢
      by_cases tested : (e.tag == conditionTag) = true
      · rw [if_pos tested] at done ⊢
        obtain ⟨_, v, opened, done⟩ := bind_eq_ok done
        obtain ⟨_, w, walked, done⟩ := bind_eq_ok done
        cases done
        rw [opened]
        have inside := (records_openCondition opened).trans (records_walk children walked)
        have closed := inside.trans (Draft.records_closeCondition w)
        rwa [List.append_nil] at closed
      · rw [if_neg tested] at done ⊢
        obtain ⟨name, v, opened, done⟩ := bind_eq_ok done
        have first := records_openElement opened
        rw [opened]
        dsimp only
        cases leaf : e.isLeaf with
        | true =>
          rw [leaf] at done
          cases done
          simpa using first
        | false =>
          rw [leaf] at done
          obtain ⟨_, w, walked, done⟩ := bind_eq_ok done
          cases done
          have inside := first.trans (records_walk children walked)
          have closed := inside.trans (Draft.records_closeElement name w)
          rwa [List.append_nil] at closed

theorem records_walk : (nodes : List Node) → {s u : Draft} →
    (walk (t.context rules) nodes s).outcome = .ok ((), u) →
    s.Records (recorded (t.context rules) nodes s) u
  | [], s, u, done => by
    cases done
    exact .of_same rfl rfl (.refl _)
  | n :: rest, s, u, done => by
    unfold walk at done
    obtain ⟨_, v, first, later⟩ := bind_eq_ok done
    unfold recorded met
    rw [first, List.flatMap_append]
    exact (records_walkNode n first).trans (records_walk rest later)

end

/-- An element that a walk comes to is one of those it meets. -/
theorem mem_met_of_reaches {τ : Type} {c : Context τ} {nodes children : List Node} {e : Element}
    {s t : τ} (reached : Reaches c nodes s e children t) (notVariable : e.tag ≠ variableTag)
    (notCondition : e.tag ≠ conditionTag) : (e, t) ∈ met c nodes s := by
  induction reached with
  | here e children rest s =>
    unfold met metBy
    simp [notVariable, notCondition]
  | after walked _ ih =>
    unfold met
    rw [walked]
    exact List.mem_append_right _ (ih notVariable notCondition)
  | insideCondition tag opened _ ih =>
    have other : conditionTag ≠ variableTag := by decide
    unfold met metBy
    rw [opened]
    simp [tag, other, ih notVariable notCondition]
  | insideElement named tested leaf opened _ ih =>
    unfold met metBy
    rw [opened]
    simp [named, tested, leaf, ih notVariable notCondition]

/-- A walk that ends well has walked every element that it came to. -/
theorem walked_of_reaches {τ : Type} {c : Context τ} {nodes children : List Node} {e : Element}
    {s t u : τ} (reached : Reaches c nodes s e children t)
    (walked : (walk c nodes s).outcome = .ok ((), u)) :
    ∃ v, (walkNode c (.element e children) t).outcome = .ok ((), v) := by
  induction reached generalizing u with
  | here e children rest s =>
    unfold walk at walked
    obtain ⟨_, v, first, -⟩ := bind_eq_ok walked
    exact ⟨v, first⟩
  | after first _ ih =>
    unfold walk at walked
    obtain ⟨_, v, again, later⟩ := bind_eq_ok walked
    cases first.symm.trans again
    exact ih later
  | insideCondition tag opened _ ih =>
    unfold walk at walked
    obtain ⟨_, v, first, -⟩ := bind_eq_ok walked
    have other : conditionTag ≠ variableTag := by decide
    unfold walkNode at first
    simp only [tag, beq_iff_eq, other, if_false, if_true] at first
    obtain ⟨_, w, again, first⟩ := bind_eq_ok first
    obtain ⟨_, x, inside, -⟩ := bind_eq_ok first
    cases opened.symm.trans again
    exact ih inside
  | insideElement named tested leaf opened _ ih =>
    unfold walk at walked
    obtain ⟨_, v, first, -⟩ := bind_eq_ok walked
    unfold walkNode at first
    simp only [named, tested, leaf, beq_iff_eq, if_false, Bool.not_false, if_true] at first
    obtain ⟨_, w, again, first⟩ := bind_eq_ok first
    obtain ⟨_, x, inside, -⟩ := bind_eq_ok first
    cases opened.symm.trans again
    exact ih inside

/-- Every element that a walk came to has its attributes, if the walk ends well. -/
theorem compiled_of_reaches {nodes children : List Node} {e : Element} {v : Draft}
    (reached : Reaches (t.context rules) nodes s e children u)
    (walked : (walk (t.context rules) nodes s).outcome = .ok ((), v)) (notVariable : e.tag ≠ variableTag)
    (notCondition : e.tag ≠ conditionTag) :
    ∃ full after, Attribute.compile Markup.Access.ofElement e.tag t.id
        { node := e, registry := u.registry } = (.ok full, after) ∧
      attributesIn (t.context rules) e u = full := by
  obtain ⟨w, node⟩ := walked_of_reaches reached walked
  unfold walkNode at node
  simp only [notVariable, notCondition, beq_iff_eq, if_false] at node
  obtain ⟨name, x, opened, -⟩ := bind_eq_ok node
  obtain ⟨full, after, made, -⟩ := openElement_iff.mp opened
  exact ⟨full, after, made, attributesIn_eq made⟩

end Walk

/-- The tables give the value of each option for its name. -/
def Choice.Shown (tables : Entries (Entries String)) (key : String) (options : List Choice) : Prop :=
  ∀ c ∈ options, (tables.get? key).bind (·.get? c.name) = some c.value

namespace Choice

variable {tables : Entries (Entries String)} {key : String} {options : List Choice}

theorem shown_iff (nonempty : options ≠ []) :
    Shown tables key options ↔ ∃ table, tables.get? key = some table ∧
      ∀ c ∈ options, table.get? c.name = some c.value := by
  cases found : tables.get? key with
  | none =>
    obtain ⟨c, rest, rfl⟩ := List.exists_cons_of_ne_nil nonempty
    constructor
    · intro shown
      have value := shown c (List.mem_cons_self ..)
      rw [found] at value
      cases value
    · rintro ⟨table, absurd, -⟩
      cases absurd
  | some table => simp [Shown, found]

/-- Options that are shown are what their names become. -/
theorem Shown.get?_apply (shown : Shown tables key options) (distinct : tables.names.Nodup)
    {values : Entries String} {c : Choice} (member : c ∈ options) (chosen : values.get? key = some c.name) :
    (LogicLess.Lookup.apply tables values).get? key = some c.value := by
  have value := shown c member
  rw [LogicLess.Lookup.get?_apply distinct, chosen]
  cases found : Entries.get? tables key with
  | none =>
    rw [found] at value
    cases value
  | some table =>
    rw [found, Option.bind_some] at value
    simp [value]

end Choice

namespace Marker

/-- Markers with two options or more have bindings with these options. -/
theorem types_of_registerAll {plain : KeyType} {tag : String} {markers : List Marker}
    {bindings : List Binding} {r r' : Registry}
    (done : registerAll plain tag markers r = .ok (bindings, r')) :
    List.Forall₂ (fun m b => ∀ options, m.options = some options → 2 ≤ options.length →
      b.type = .enumeration options) markers bindings := by
  induction markers generalizing r bindings with
  | nil =>
    cases done
    exact .nil
  | cons m rest ih =>
    obtain ⟨binding, middle, others, first, later, rfl⟩ := registerAll_cons done
    refine .cons ?_ (ih later)
    intro options offered several
    obtain ⟨key, -, rfl⟩ := called_of_register first
    obtain ⟨a, b, more, rfl⟩ : ∃ a b more, options = a :: b :: more := by
      rcases options with _ | ⟨a, _ | ⟨b, more⟩⟩
      · cases several
      · simp at several
      · exact ⟨a, b, more, rfl⟩
    simp [keyType, offered]

end Marker

namespace Template

open Binding (optionsUnder)
open Choice (Shown)

theorem names_of_mem_reserved {r : Registry} {names : List String} {name : String}
    (member : name ∈ (names.foldl Registry.reserve r).reserved) :
    name ∈ r.reserved ∨ name ≠ "" ∧ ∃ origin ∈ names, Text.trim origin = name := by
  induction names generalizing r with
  | nil => exact Or.inl member
  | cons first rest ih =>
    rw [List.foldl_cons] at member
    rcases ih member with before | ⟨nonempty, origin, listed, same⟩
    · rw [Registry.reserved_reserve] at before
      split at before
      · exact Or.inl before
      · rename_i nonblank
        rcases List.mem_cons.mp before with rfl | old
        · exact Or.inr ⟨nonblank, first, List.mem_cons_self .., rfl⟩
        · exact Or.inl old
    · exact Or.inr ⟨nonempty, origin, List.mem_cons_of_mem first listed, same⟩

/-- What is reserved at the start is what some element names. -/
theorem exists_names_of_mem_start_reserved (t : Template) (options : Option ComponentOptions)
    {roots : List Node} (format : Format) {name : String}
    (member : name ∈ (t.start options roots format).registry.reserved) :
    ∃ origin ∈ elements roots, Names origin name := by
  unfold start at member
  rw [show ∀ r d, (Draft.withRegistry r d).registry = r from Draft.target_lawful.registry_withRegistry]
    at member
  rcases names_of_mem_reserved member with before | ⟨nonempty, key, listed, same⟩
  · unfold Draft.start at before
    split at before <;> cases before
  · rw [boundKeys_eq] at listed
    obtain ⟨origin, known, bound⟩ := List.mem_filterMap.mp listed
    refine ⟨origin, known, nonempty, ?_⟩
    unfold boundKey? at bound
    split at bound
    · rename_i tag
      cases bound
      rw [Text.trim_trim] at same
      exact Or.inl ⟨by simpa using tag, same⟩
    · split at bound
      · rename_i tag
        obtain ⟨c, parsed, rfl⟩ := Option.map_eq_some_iff.mp bound
        have trimmed : Text.trim c.key = c.key := by
          rw [(Condition.key_of_parse? parsed).1, Text.trim_trim]
        refine Or.inr ⟨by simpa using tag, ?_⟩
        rw [Condition.parse?_trim, bound, ← same, trimmed]
      · cases bound

theorem tables_start (t : Template) (options : Option ComponentOptions) (roots : List Node)
    (format : Format) : (t.start options roots format).tables = [] := by
  unfold start Draft.start
  split <;> rfl

section Finished

variable {t : Template} {options : Option ComponentOptions} {roots : List Node}
  {rules : List Style.Rule} {format : Format} {draft : Draft}

theorem get?_tables
    (walked : (Walk.walk (t.context rules) roots (t.start options roots format)).outcome = .ok ((), draft))
    (key : String) :
    draft.tables.get? key = (optionsUnder key (Walk.recorded (t.context rules) roots
      (t.start options roots format))).getLast?.map Choice.table := by
  have recorded := (Walk.records_walk roots walked).tables
  rw [recorded, LogicLess.Lookup.get?_foldl_recordBinding_eq, tables_start]
  exact Option.or_none

theorem nodup_names_tables
    (walked : (Walk.walk (t.context rules) roots (t.start options roots format)).outcome = .ok ((), draft)) :
    draft.tables.names.Nodup := by
  have none : Entries.names ([] : Entries (Entries String)) = [] := rfl
  rw [(Walk.records_walk roots walked).tables, tables_start]
  exact LogicLess.Lookup.foldl_recordBinding_nodup (none ▸ List.nodup_nil) _

theorem mem_recorded {e : Element} {children : List Node} {s : Draft} {a : Attribute} {b : Binding}
    (reached : Walk.Reaches (t.context rules) roots (t.start options roots format) e children s)
    (notVariable : e.tag ≠ variableTag) (notCondition : e.tag ≠ conditionTag)
    (own : a ∈ Walk.attributesIn (t.context rules) e s) (reads : s.reads a = true)
    (member : b ∈ a.bindings) :
    b ∈ Walk.recorded (t.context rules) roots (t.start options roots format) := by
  have met := Walk.mem_met_of_reaches reached notVariable notCondition
  refine List.mem_flatMap.mpr ⟨(e, s), met, ?_⟩
  exact List.mem_flatMap.mpr ⟨a, List.mem_filter.mpr ⟨own, reads⟩, member⟩

/-- Of a key that nothing names, the options recorded are all there are. -/
theorem rendered_eq_singleton {key : String} {choices : List Choice}
    (walked : (Walk.walk (t.context rules) roots (t.start options roots format)).outcome = .ok ((), draft))
    (unnamed : ∀ origin ∈ elements roots, ¬Names origin key)
    (member : choices ∈ optionsUnder key (Walk.recorded (t.context rules) roots
      (t.start options roots format))) :
    optionsUnder key (Walk.recorded (t.context rules) roots (t.start options roots format)) =
      [choices] := by
  have unreserved : key ∉ (t.start options roots format).registry.reserved := by
    intro reserved
    obtain ⟨origin, known, named⟩ := exists_names_of_mem_start_reserved t options format reserved
    exact unnamed origin known named
  have single := ((Walk.records_walk roots walked).once key unreserved).single
  obtain ⟨before, after, split⟩ := List.append_of_mem member
  rw [split] at single ⊢
  simp only [List.length_append, List.length_cons] at single
  rw [List.eq_nil_of_length_eq_zero (show before.length = 0 by omega),
    List.eq_nil_of_length_eq_zero (show after.length = 0 by omega)]
  rfl

/-- Under a key just those options are shown whose values the last ones rendered under it give. -/
theorem shown_iff_last {key : String} {choices : List Choice}
    (walked : (Walk.walk (t.context rules) roots (t.start options roots format)).outcome = .ok ((), draft))
    (offers : choices ≠ []) :
    Shown draft.tables key choices ↔ ∃ last,
      (optionsUnder key (Walk.recorded (t.context rules) roots (t.start options roots format))).getLast? =
        some last ∧ ∀ c ∈ choices, (Choice.table last).get? c.name = some c.value := by
  rw [Choice.shown_iff offers, get?_tables walked]
  constructor
  · rintro ⟨table, found, values⟩
    obtain ⟨last, known, rfl⟩ := Option.map_eq_some_iff.mp found
    exact ⟨last, known, values⟩
  · rintro ⟨last, known, values⟩
    exact ⟨_, Option.map_eq_some_iff.mpr ⟨last, known, rfl⟩, values⟩

theorem shown_of_unnamed {key : String} {choices : List Choice}
    (walked : (Walk.walk (t.context rules) roots (t.start options roots format)).outcome = .ok ((), draft))
    (offers : choices ≠ []) (distinct : (choices.map (·.name)).Nodup)
    (unnamed : ∀ origin ∈ elements roots, ¬Names origin key)
    (member : choices ∈ optionsUnder key (Walk.recorded (t.context rules) roots
      (t.start options roots format))) :
    Shown draft.tables key choices := by
  refine (shown_iff_last walked offers).mpr ⟨choices, ?_, ?_⟩
  · rw [rendered_eq_singleton walked unnamed member]
    rfl
  · intro c listed
    exact Choice.get?_table_name distinct listed

/-- Of an element that the walk reaches, an attribute with markers has a binding for each, which offers the
options of its marker. -/
theorem offers_of_reaches {e : Element} {children : List Node} {s : Draft} {label text : String}
    {markers : List Marker}
    (walked : (Walk.walk (t.context rules) roots (t.start options roots format)).outcome = .ok ((), draft))
    (reached : Walk.Reaches (t.context rules) roots (t.start options roots format) e children s)
    (notVariable : e.tag ≠ variableTag) (notCondition : e.tag ≠ conditionTag)
    (listed : label ∈ e.attrs.map (·.name)) (parsed : Marker.parse (e.authored label) = .ok (text, markers))
    (nonempty : markers ≠ []) (plain : label ∈ Attribute.idAttributes → text = "") :
    ∃ full after a, Attribute.compile Markup.Access.ofElement e.tag t.id
        { node := e, registry := s.registry } = (.ok full, after) ∧
      Attribute.find? full label = some a ∧ a ∈ Walk.attributesIn (t.context rules) e s ∧
      List.Forall₂ (fun m b => b ∈ a.bindings ∧ ∀ choices, m.options = some choices → 2 ≤ choices.length →
        b.type = .enumeration choices) markers a.bindings := by
  obtain ⟨full, after, made, same⟩ :=
    Walk.compiled_of_reaches reached walked notVariable notCondition
  obtain ⟨a, found, -, types⟩ := Attribute.compile_binds
    (P := List.Forall₂ fun (m : Marker) (b : Binding) => ∀ options, m.options = some options →
      2 ≤ options.length → b.type = .enumeration options)
    (fun _ _ _ _ _ _ _ here => Marker.types_of_registerAll here) made listed parsed nonempty plain
  refine ⟨full, after, a, made, found, same ▸ List.mem_of_find?_eq_some found, ?_⟩
  have inside := (List.forall₂_and_left (p := (· ∈ a.bindings)) _ _).mpr ⟨fun _ member => member, types.flip⟩
  exact inside.flip

end Finished

/-- The tables of the finished draft show the options of each marker exactly if the last options rendered
under its key give the same values. Where the attribute is one whose options the draft looks up these
include the marker's own, and if no variable and no condition has the name of its key they are the only
ones. Options that are shown are what the names stand for in values that are mapped by the tables. -/
theorem choices_shown_iff_last (t : Template) (options : Option ComponentOptions) (roots : List Node)
    (rules : List Style.Rule) (format : Format) {files : FileMap}
    (compiled : (t.compileTo options roots rules format).outcome = .ok files) :
    let start := t.start options roots format
    ∃ draft, (Walk.walk (t.context rules) roots start).outcome = .ok ((), draft) ∧
      files = draft.files t.css (hasMultipleRoots roots) ∧
      ∀ e children s, Walk.Reaches (t.context rules) roots start e children s →
        e.tag ≠ variableTag → e.tag ≠ conditionTag →
        ∀ label ∈ e.attrs.map (·.name), ∀ text markers,
          Marker.parse (e.authored label) = .ok (text, markers) → markers ≠ [] →
          (label ∈ Attribute.idAttributes → text = "") →
          ∃ full after a, Attribute.compile Markup.Access.ofElement e.tag t.id
              { node := e, registry := s.registry } = (.ok full, after) ∧
            Attribute.find? full label = some a ∧
            List.Forall₂ (fun m b => ∀ choices, m.options = some choices → 2 ≤ choices.length →
              (choices.map (·.name)).Nodup →
              let rendered := optionsUnder b.key (Walk.recorded (t.context rules) roots start)
              b.type = .enumeration choices ∧
              (Shown draft.tables b.key choices ↔ ∃ last, rendered.getLast? = some last ∧
                ∀ c ∈ choices, (Choice.table last).get? c.name = some c.value) ∧
              (s.reads a = true → choices ∈ rendered ∧
                ((∀ origin ∈ elements roots, ¬Names origin b.key) → Shown draft.tables b.key choices)) ∧
              (Shown draft.tables b.key choices → ∀ values c, c ∈ choices →
                values.get? b.key = some c.name →
                (LogicLess.Lookup.apply draft.tables values).get? b.key = some c.value))
              markers a.bindings := by
  intro start
  rw [t.compileTo_eq options roots rules format] at compiled
  obtain ⟨⟨_, draft⟩, walked, written⟩ := Reported.bind_eq_ok compiled
  cases written
  refine ⟨draft, walked, rfl, ?_⟩
  intro e children s reached notVariable notCondition label listed text markers parsed nonempty plain
  obtain ⟨full, after, a, made, found, own, bindings⟩ :=
    offers_of_reaches walked reached notVariable notCondition listed parsed nonempty plain
  refine ⟨full, after, a, made, found, bindings.imp ?_⟩
  intro m b bound choices offered several distinct
  have type := bound.2 choices offered several
  have offers : choices ≠ [] := by
    rintro rfl
    cases several
  refine ⟨type, shown_iff_last walked offers, ?_, ?_⟩
  · intro reads
    have member := Binding.mem_optionsUnder
      (mem_recorded reached notVariable notCondition own reads bound.1) type
    exact ⟨member, fun unnamed => shown_of_unnamed walked offers distinct unnamed member⟩
  · intro shown values c listed chosen
    exact shown.get?_apply (nodup_names_tables walked) listed chosen

/-- The sizes of a card, under a name that nothing else in the template has. -/
theorem choices_shown_card :
    let source := "\x7b\x7b size: w-1 as s | w-2 as l \x7d\x7d"
    let choices : List Choice := [⟨"w-1", "s"⟩, ⟨"w-2", "l"⟩]
    let card : Element := { tag := "p", attrs := [⟨"class", "card " ++ source⟩] }
    let roots : List Node := [.element card []]
    let t : Template := { id := "card", html := "" }
    (∃ files, (t.compileTo none roots [] .mustache).outcome = .ok files) ∧
      Marker.parse (card.authored "class") = .ok ("card", [⟨"size", false, some choices, source⟩]) ∧
      ∃ draft, (Walk.walk (t.context []) roots (t.start none roots .mustache)).outcome = .ok ((), draft) ∧
        Shown draft.tables "size" choices := by
  intro source choices card roots t
  have ends : ∃ files, (t.compileTo none roots [] .mustache).outcome = .ok files := by
    have done : (t.compileTo none roots [] .mustache).outcome.toOption.isSome = true := by decide +kernel
    obtain ⟨files, ended⟩ := Option.isSome_iff_exists.mp done
    exact ⟨files, ok_of_toOption ended⟩
  have parsed : Marker.parse (card.authored "class") =
      .ok ("card", [⟨"size", false, some choices, source⟩]) := ok_of_toOption (by decide +kernel)
  have written : (Attribute.compile Markup.Access.ofElement card.tag t.id
      { node := card, registry := (t.start none roots .mustache).registry }).1 =
      .ok [⟨"class", "card", .string, [⟨"size", false, .enumeration choices, none⟩], false⟩] :=
    ok_of_toOption (by decide +kernel)
  refine ⟨ends, parsed, ?_⟩
  obtain ⟨files, compiled⟩ := ends
  obtain ⟨draft, walked, -, shown⟩ := choices_shown_iff_last t none roots [] .mustache compiled
  obtain ⟨full, after, a, made, found, each⟩ := shown card [] _ (.here ..) (by decide) (by decide) "class"
    (by decide) _ _ parsed (by simp) (by decide)
  rw [made] at written
  cases written
  cases found
  obtain ⟨here, -⟩ := List.forall₂_cons.mp each
  obtain ⟨-, -, own, -⟩ := here _ rfl (by decide) (by decide)
  refine ⟨draft, walked, (own rfl).2 ?_⟩
  intro origin member named
  obtain rfl : origin = card := List.mem_singleton.mp member
  obtain ⟨-, ⟨tag, -⟩ | ⟨tag, -⟩⟩ := named <;> exact absurd tag (by decide)

theorem exists_draft_of_tables {t : Template} {rules : List Style.Rule} {roots : List Node} {s : Draft}
    {tables : Entries (Entries String)}
    (ended : ((Walk.walk (t.context rules) roots s).outcome.toOption.map fun last => last.2.tables) =
      some tables) :
    ∃ draft, (Walk.walk (t.context rules) roots s).outcome = .ok ((), draft) ∧ draft.tables = tables := by
  obtain ⟨⟨_, draft⟩, walked, same⟩ := Option.map_eq_some_iff.mp ended
  exact ⟨draft, ok_of_toOption walked, same⟩

/-- Two markers of one name, which a condition has too: the options of the first are gone. -/
theorem choices_of_shared_name_lost :
    let choices : List Choice := [⟨"x", "s"⟩, ⟨"y", "l"⟩]
    let condition : Element := { tag := conditionTag, attrs := [⟨"key", "size"⟩] }
    let first : Element := { tag := "p", attrs := [⟨"class", "\x7b\x7b size: x as s | y as l \x7d\x7d"⟩] }
    let second : Element := { tag := "p", attrs := [⟨"title", "\x7b\x7b size: p as m | q as n \x7d\x7d"⟩] }
    let roots : List Node := [.element condition [], .element first [], .element second []]
    let t : Template := { id := "card", html := "" }
    ∀ format ∈ [Format.mustache, Format.reactTs, Format.reactJs],
      ∃ draft, (Walk.walk (t.context []) roots (t.start none roots format)).outcome = .ok ((), draft) ∧
        draft.tables = [("size", [("m", "p"), ("n", "q")])] ∧ ¬Shown draft.tables "size" choices := by
  intro choices condition first second roots t format listed
  have ended : ((Walk.walk (t.context []) roots (t.start none roots format)).outcome.toOption.map
      fun last => last.2.tables) = some [("size", [("m", "p"), ("n", "q")])] := by
    simp only [List.mem_cons, List.not_mem_nil, or_false] at listed
    rcases listed with rfl | rfl | rfl <;> decide +kernel
  obtain ⟨draft, walked, tables⟩ := exists_draft_of_tables ended
  refine ⟨draft, walked, tables, ?_⟩
  intro shown
  have value := shown ⟨"x", "s"⟩ (List.mem_cons_self ..)
  rw [tables] at value
  exact absurd value (by decide)

end Template

end Stencil
