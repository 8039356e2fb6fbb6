import Stencil.Proofs.ComponentKeys
import Stencil.Proofs.DeclaredTypes

/-! The variables that a component reads, and its parameters. The markup of a component is a row of pieces,
one for each thing the walk tells the draft: tags, texts, values and tests. Each reads keys, and every key
is one that a call to the registry returned. At the end the registry has each name once, so it is one
parameter and one field of the properties; the field of a key that some attribute requires has no
question mark. Only what holds keys themselves reads more, when it is made of several markers. -/
namespace Stencil

open Markup (Node Element)
open Registry (Grant Grants)

namespace Component

/-- A piece of the markup of a component. The opening of an element has all its attributes, and the rules
it is styled with, if it is. -/
inductive Piece where
  | opening (tag name : String) (attributes : List Attribute) (styled : Option StyledRules)
      (selfClosing : Bool)
  | closing (name : String)
  | text (text : String)
  | value (key default : String)
  | test (condition : Condition)
  | endTest

namespace Piece

def attributes : Piece → List Attribute
  | .opening _ _ attributes _ _ => attributes
  | _ => []

/-- The attributes that are written: with styled components all but classes. -/
def rendered (d : Draft) (p : Piece) : List Attribute :=
  p.attributes.filter fun a => !(d.isStyled && a.name == "class")

/-- The keys that the piece reads besides those of its attributes. -/
def keys : Piece → List String
  | .opening _ _ _ styled _ => styled.elim [] (·.props)
  | .value key _ => [key]
  | .test condition => [condition.key]
  | _ => []

def write (d : Draft) (p : Piece) : String :=
  match p with
  | .opening _ name _ _ selfClosing =>
    "<" ++ name ++ Text.concat (p.keys.map fun key => " " ++ key ++ "=" ++ braced key) ++
      Text.concat ((p.rendered d).map writeAttribute) ++ (if selfClosing then " />" else ">")
  | .closing name => "</" ++ name ++ ">"
  | .text content => escapeText content
  | .value key default =>
    if Text.allBlank default then braced key
    else braced ((Expr.isDefined (.key key)).write ++ " ? " ++ key ++ " : <React.Fragment>" ++
      escapeText default ++ "</React.Fragment>")
  | .test condition => "\x7b" ++ writeTest condition ++ " ? <React.Fragment>"
  | .endTest => "</React.Fragment> : null\x7d"

theorem write_opening (d : Draft) (tag name : String) (attributes : List Attribute)
    (styled : Option StyledRules) (selfClosing : Bool) :
    (opening tag name attributes styled selfClosing).write d =
      "<" ++ name ++ Text.concat ((styled.elim [] (·.props)).map fun key => " " ++ key ++ "=" ++ braced key) ++
        Text.concat ((attributes.filter fun a => !(d.isStyled && a.name == "class")).map writeAttribute) ++
        (if selfClosing then " />" else ">") := rfl

/-- The definition of the element that the piece opens, if it is styled. -/
def definition (d : Draft) : Piece → String
  | .opening tag name _ (some rules) _ => d.styleDefinition (Text.toLowerAscii tag) name rules
  | _ => ""

/-- The piece that is written for what a walk tells the draft. -/
inductive Tells : Walk.Call → Piece → Prop where
  | opening {o name added r r' styled} :
      Draft.handlers (Text.toLowerAscii o.tag) (Draft.handlersFor (Text.toLowerAscii o.tag) o.attributes) r =
        .ok (added, r') →
      (styled = none ∨
        styled = some (StyledRules.ofRules o.rules (Attribute.find? (o.attributes ++ added) "class"))) →
      Tells (.openElement o name) (.opening o.tag name (o.attributes ++ added) styled o.selfClosing)
  | closing {name} : Tells (.closeElement name) (.closing name)
  | text {text} : Tells (.addText text) (.text text)
  | value {key default} : Tells (.addVariable key default) (.value key default)
  | test {condition} : Tells (.openCondition condition) (.test condition)
  | endTest : Tells .closeCondition .endTest

/-- No attribute that a walk tells of is without its piece. -/
theorem exists_of_tells {calls : List Walk.Call} {pieces : List Piece} {a : Attribute}
    (told : List.Forall₂ Tells calls pieces) (held : a ∈ calls.flatMap Walk.Call.attributes) :
    ∃ p ∈ pieces, a ∈ p.attributes := by
  induction told with
  | nil => cases held
  | cons tells _ ih =>
    rw [List.flatMap_cons] at held
    rcases List.mem_append.mp held with here | later
    · refine ⟨_, List.mem_cons_self .., ?_⟩
      cases tells with
      | opening => exact List.mem_append_left _ here
      | closing | text | value | test | endTest => cases here
    · obtain ⟨p, member, inside⟩ := ih later
      exact ⟨p, List.mem_cons_of_mem _ member, inside⟩

section

variable {d d' : Draft} (same : d'.options = d.options)

include same

theorem write_of_options : write d' = write d := by
  have styled : d'.isStyled = d.isStyled := by rw [Draft.isStyled, same, Draft.isStyled]
  funext p
  cases p <;> simp only [write, rendered, styled]

theorem definition_of_options : definition d' = definition d := by
  have typed : d'.isTyped = d.isTyped := by rw [Draft.isTyped, same, Draft.isTyped]
  funext p
  unfold definition
  split
  · delta Draft.styleDefinition
    rw [typed]
  · rfl

end

end Piece

namespace Draft

/-- Between two drafts of a component, a walk told the first these things, the registry was called, and
these pieces were written, of which every key was returned by one of the calls. -/
structure Adds (d : Draft) (calls : List Walk.Call) (grants : List Grant) (pieces : List Piece)
    (d' : Draft) : Prop where
  made : Grants d.registry grants d'.registry
  options : d'.options = d.options
  told : List.Forall₂ Piece.Tells calls pieces
  written : d'.written = d.written ++ Text.concat (pieces.map (Piece.write d))
  styles : d'.styles = d.styles ++ Text.concat (pieces.map (Piece.definition d))
  keys : ∀ p ∈ pieces, ∀ key ∈ p.keys, ∃ g ∈ grants, g.key = key
  attributes : ∀ p ∈ pieces, ∀ a ∈ p.attributes, a.Granted grants

namespace Adds

theorem refl (d : Draft) : d.Adds [] [] [] d where
  made := .nil
  options := rfl
  told := .nil
  written := by simp
  styles := by simp
  keys := by simp
  attributes := by simp

theorem trans {d d' d'' : Draft} {calls others : List Walk.Call} {grants later : List Grant}
    {pieces more : List Piece} (first : d.Adds calls grants pieces d')
    (second : d'.Adds others later more d'') :
    d.Adds (calls ++ others) (grants ++ later) (pieces ++ more) d'' where
  made := first.made.append second.made
  options := second.options.trans first.options
  told := List.rel_append first.told second.told
  written := by
    rw [second.written, first.written, Piece.write_of_options first.options, List.map_append,
      Text.concat_append, String.append_assoc]
  styles := by
    rw [second.styles, first.styles, Piece.definition_of_options first.options, List.map_append,
      Text.concat_append, String.append_assoc]
  keys := by
    intro p member key read
    rcases List.mem_append.mp member with old | new
    · obtain ⟨g, given, same⟩ := first.keys p old key read
      exact ⟨g, List.mem_append_left _ given, same⟩
    · obtain ⟨g, given, same⟩ := second.keys p new key read
      exact ⟨g, List.mem_append_right _ given, same⟩
  attributes := by
    intro p member a held
    rcases List.mem_append.mp member with old | new
    · exact (first.attributes p old a held).mono (List.subset_append_left ..)
    · exact (second.attributes p new a held).mono (List.subset_append_right ..)

end Adds

section

variable {d : Draft}

/-- A piece that reads nothing. -/
theorem adds_append {call : Walk.Call} {p : Piece} (told : Piece.Tells call p)
    (plain : p.definition d = "") (silent : p.keys = []) (bare : p.attributes = []) :
    d.Adds [call] [] [p] (d.append (p.write d)) where
  made := .nil
  options := rfl
  told := .cons told .nil
  written := by simp [append]
  styles := by simp [append, plain]
  keys := by simp [silent]
  attributes := by simp [bare]

theorem adds_addText (text : String) : d.Adds [.addText text] [] [.text text] (d.addText text) :=
  adds_append .text rfl rfl rfl

theorem adds_closeElement (name : String) :
    d.Adds [.closeElement name] [] [.closing name] (d.closeElement name) :=
  adds_append .closing rfl rfl rfl

theorem adds_closeCondition : d.Adds [.closeCondition] [] [.endTest] d.closeCondition :=
  adds_append .endTest rfl rfl rfl

variable {calls : List Walk.Call} {grants : List Grant} {pieces : List Piece}

/-- The value of a key that was shared for it. -/
theorem adds_addVariable {name key : String} {k : KeyDefinition} {registry : Registry} (default : String)
    (shared : d.registry.share name k = .ok (key, registry)) :
    d.Adds [.addVariable key default] [⟨.share, name, k, key⟩] [.value key default]
      ({ d with registry }.addVariable key default) := by
  have written : { d with registry }.addVariable key default =
      { d with registry }.append ((Piece.value key default).write d) := by
    by_cases blank : Text.allBlank default = true <;> simp [addVariable, Piece.write, blank]
  rw [written]
  exact {
    made := .single shared
    options := rfl
    told := .cons .value .nil
    written := by simp [append]
    styles := by simp [append, Piece.definition]
    keys := by simp [Piece.keys]
    attributes := by simp [Piece.attributes] }

/-- A test of a key that was shared for it. -/
theorem adds_openCondition {name : String} {k : KeyDefinition} {registry : Registry} {c : Condition}
    (shared : d.registry.share name k = .ok (c.key, registry)) :
    d.Adds [.openCondition c] [⟨.share, name, k, c.key⟩] [.test c] ({ d with registry }.openCondition c) where
  made := .single shared
  options := rfl
  told := .cons .test .nil
  written := by simp [openCondition, append, Piece.write]
  styles := by simp [openCondition, append, Piece.definition]
  keys := by simp [Piece.keys]
  attributes := by simp [Piece.attributes]

theorem styleElement_spec (d : Draft) (tagName tag : String) (rules : StyledRules) :
    ∃ styled : Option StyledRules, (styled = none ∨ styled = some rules) ∧
      (d.styleElement tagName tag rules).1.2 = styled.elim [] (·.props) ∧
      (d.styleElement tagName tag rules).2.options = d.options ∧
      (d.styleElement tagName tag rules).2.written = d.written ∧
      (d.styleElement tagName tag rules).2.styles = d.styles ++
        styled.elim "" (d.styleDefinition tag (d.styleElement tagName tag rules).1.1) := by
  unfold styleElement
  split
  · exact ⟨none, .inl rfl, rfl, rfl, rfl, by simp⟩
  · exact ⟨some rules, .inr rfl, rfl, rfl, rfl, rfl⟩

/-- The opening of an element, with the handlers it gets. -/
theorem openElement_spec {d' : Draft} {o : Opening} {name : String}
    (done : (d.openElement o.tag o.attributes o.rules o.selfClosing).outcome = .ok (name, d')) :
    ∃ added styled, handlers (Text.toLowerAscii o.tag)
        (handlersFor (Text.toLowerAscii o.tag) o.attributes) d.registry = .ok (added, d'.registry) ∧
      (styled = none ∨
        styled = some (StyledRules.ofRules o.rules (Attribute.find? (o.attributes ++ added) "class"))) ∧
      d'.options = d.options ∧
      d'.written = d.written ++
        (Piece.opening o.tag name (o.attributes ++ added) styled o.selfClosing).write d ∧
      d'.styles = d.styles ++
        (Piece.opening o.tag name (o.attributes ++ added) styled o.selfClosing).definition d := by
  obtain ⟨added, registry, names, after, handled, made, rfl⟩ := styled_of_openElement done
  have kept := ({ d with registry } : Draft).styleElement_registry o.tag (Text.toLowerAscii o.tag)
    (StyledRules.ofRules o.rules (Attribute.find? (o.attributes ++ added) "class"))
  obtain ⟨styled, chosen, props, options, written, styles⟩ :=
    ({ d with registry } : Draft).styleElement_spec o.tag (Text.toLowerAscii o.tag)
      (StyledRules.ofRules o.rules (Attribute.find? (o.attributes ++ added) "class"))
  rw [made] at kept props options written styles
  have sameStyled : after.isStyled = d.isStyled := by
    rw [isStyled, show after.options = d.options from options, isStyled]
  have sameRegistry : after.registry = registry := kept
  refine ⟨added, styled, ?_, chosen, options, ?_, ?_⟩
  · exact handled.trans (congrArg (fun r => Except.ok (added, r)) sameRegistry.symm)
  · change after.written ++ _ = _
    rw [show after.written = d.written from written]
    rw [Piece.write_opening, ← sameStyled, ← props]
  · refine (show after.styles = _ from styles).trans ?_
    cases styled <;> rfl

/-- Attributes of an element, and its opening. -/
theorem adds_openElement {d' : Draft} {o : Opening} {name : String} {registry : Registry}
    (compiled : Grants d.registry grants registry) (granted : ∀ a ∈ o.attributes, a.Granted grants)
    (done : ({ d with registry }.openElement o.tag o.attributes o.rules o.selfClosing).outcome =
      .ok (name, d')) :
    ∃ grants pieces, d.Adds [.openElement o name] grants pieces d' := by
  obtain ⟨added, styled, handled, chosen, options, written, styles⟩ := openElement_spec done
  obtain ⟨later, made, -, own⟩ := grants_handlers handled
  have all : ∀ a ∈ o.attributes ++ added, a.Granted (grants ++ later) := by
    intro a member
    rcases List.mem_append.mp member with old | new
    · exact (granted a old).mono (List.subset_append_left ..)
    · exact (own a new).mono (List.subset_append_right ..)
  refine ⟨grants ++ later, [.opening o.tag name (o.attributes ++ added) styled o.selfClosing],
    compiled.append made, options, .cons (.opening handled chosen) .nil, ?_, ?_, ?_, ?_⟩
  · have same : Piece.write { d with registry } = Piece.write d := Piece.write_of_options rfl
    rw [written, same, List.map_singleton, Text.concat_singleton]
  · have same : Piece.definition { d with registry } = Piece.definition d :=
      Piece.definition_of_options rfl
    rw [styles, same, List.map_singleton, Text.concat_singleton]
  · intro p member key read
    rcases List.mem_singleton.mp member with rfl
    rcases chosen with rfl | rfl
    · cases read
    · have bound := StyledRules.props_subset _ _ read
      cases found : Attribute.find? (o.attributes ++ added) "class" with
      | none =>
        rw [found] at bound
        cases bound
      | some a =>
        rw [found] at bound
        obtain ⟨b, inside, rfl⟩ := List.mem_map.mp bound
        obtain ⟨g, given, fits, -⟩ := all a (List.mem_of_find?_eq_some found) b inside
        exact ⟨g, given, fits.key⟩
  · intro p member
    rcases List.mem_singleton.mp member with rfl
    exact all

end

end Draft

/-- The key is one of the parameters and one field of the properties, with this definition. -/
def DeclaredAs (r : Registry) (key : String) (k : KeyDefinition) : Prop :=
  ∃ before after : List (String × KeyDefinition),
    key ∉ before.map (·.1) ∧ key ∉ after.map (·.1) ∧
    parameters r = "\x7b " ++ Text.join ", " (before.map (·.1) ++ key :: after.map (·.1)) ++ " \x7d" ∧
    propsDeclaration r = "type Props = \x7b\n" ++
      Text.concat (before.map fun field => propField field.1 field.2) ++ propField key k ++
      Text.concat (after.map fun field => propField field.1 field.2) ++ "\x7d;\n\n"

theorem propsDeclaration_eq (r : Registry) : propsDeclaration r = "type Props = \x7b\n" ++
    Text.concat (r.keys.map fun field => propField field.1 field.2) ++ "\x7d;\n\n" := rfl

theorem declaredAs_of_get? {r : Registry} {key : String} {k : KeyDefinition} (distinct : r.names.Nodup)
    (found : r.get? key = some k) : DeclaredAs r key k := by
  obtain ⟨⟨name, definition⟩, first, rfl⟩ := Option.map_eq_some_iff.mp found
  obtain ⟨same, before, after, split, others⟩ := List.find?_eq_some_iff_append.mp first
  obtain rfl : name = key := by simpa using same
  have names : r.names = before.map (·.1) ++ name :: after.map (·.1) := by simp [Registry.names, split]
  refine ⟨before, after, ?_, ?_, ?_, ?_⟩
  · intro known
    obtain ⟨other, inside, rfl⟩ := List.mem_map.mp known
    simpa using others other inside
  · rw [names] at distinct
    exact (List.nodup_cons.mp (List.nodup_append.mp distinct).2.1).1
  · unfold parameters
    rw [names]
    cases before <;> rfl
  · rw [propsDeclaration_eq, split, List.map_append, List.map_cons, Text.concat_append, Text.concat_cons]
    simp only [String.append_assoc]

end Component

namespace Draft

/-- From a draft of a component, what a walk told it leads to another. -/
def Composes (s : Draft) (calls : List Walk.Call) (u : Draft) : Prop :=
  ∀ d, s = .component d → ∃ grants pieces d', u = .component d' ∧ d.Adds calls grants pieces d'

theorem Composes.refl (s : Draft) : Composes s [] s := by
  rintro d rfl
  exact ⟨_, _, d, rfl, .refl d⟩

theorem Composes.trans {s t u : Draft} {calls others : List Walk.Call} (first : Composes s calls t)
    (second : Composes t others u) : Composes s (calls ++ others) u := by
  intro d start
  obtain ⟨_, _, d', middle, adds⟩ := first d start
  obtain ⟨_, _, d'', last, more⟩ := second d' middle
  exact ⟨_, _, d'', last, adds.trans more⟩

theorem composes_addText (text : String) (s : Draft) : Composes s [.addText text] (s.addText text) := by
  rintro d rfl
  exact ⟨_, _, _, rfl, d.adds_addText text⟩

theorem composes_closeElement (name : String) (s : Draft) :
    Composes s [.closeElement name] (s.closeElement name) := by
  rintro d rfl
  exact ⟨_, _, _, rfl, d.adds_closeElement name⟩

theorem composes_closeCondition (s : Draft) : Composes s [.closeCondition] s.closeCondition.2 := by
  rintro d rfl
  exact ⟨_, _, _, rfl, d.adds_closeCondition⟩

theorem composes_addVariable {s : Draft} {name key : String} {k : KeyDefinition} {r : Registry}
    (default : String) (shared : s.registry.share name k = .ok (key, r)) :
    Composes s [.addVariable key default] ((s.withRegistry r).addVariable key default) := by
  rintro d rfl
  exact ⟨_, _, _, rfl, d.adds_addVariable default shared⟩

theorem composes_openCondition {s t : Draft} {name key : String} {k : KeyDefinition} {r : Registry}
    {c : Condition} (shared : s.registry.share name k = .ok (key, r))
    (opened : (s.withRegistry r).openCondition { c with key } = .ok t) :
    Composes s [.openCondition { c with key }] t := by
  rintro d rfl
  cases opened
  exact ⟨_, _, _, rfl, d.adds_openCondition shared⟩

theorem composes_openElement {c : Walk.Context Draft} {s t : Draft} {e : Element}
    {attributes : List Attribute} {after : Attribute.Compiling Element} {name : String}
    (compiled : Attribute.compile Markup.Access.ofElement e.tag c.template
      { node := e, registry := s.registry } = (.ok attributes, after))
    (opened : ((s.withRegistry after.registry).openElement (Walk.opening c e attributes)).outcome =
      .ok (name, t)) :
    Composes s [.openElement (Walk.opening c e attributes) name] t := by
  rintro d rfl
  obtain ⟨grants, made, -, granted⟩ := Attribute.grants_compile compiled
  obtain ⟨⟨shown, d'⟩, done, ended⟩ := Reported.bind_eq_ok opened
  cases ended
  obtain ⟨grants, pieces, adds⟩ := Component.Draft.adds_openElement made granted done
  exact ⟨grants, pieces, d', rfl, adds⟩

end Draft

namespace Walk

/-- What a walk writes of a component: a piece for everything it tells. -/
theorem Walks.composes {t : Template} {rules : List Style.Rule} {nodes : List Node} {s u : Draft}
    {steps : List Step} (walks : Walks (t.context rules) nodes s steps u) :
    s.Composes (callsOf steps) u := by
  induction walks with
  | nil => exact .refl _
  | @text text _ s _ _ _ ih => exact (Draft.composes_addText text s).trans ih
  | comment _ ih => exact ih
  | @value _ children _ _ _ _ _ _ _ _ shared _ ih =>
    exact (Draft.composes_addVariable (Node.renderAll children) shared).trans ih
  | @condition _ _ _ _ _ _ _ _ _ v _ _ _ _ shared opened _ _ inner ih =>
    have inside := inner.trans (Draft.composes_closeCondition v)
    have all := (Draft.composes_openCondition shared opened).trans (inside.trans ih)
    simpa [callsOf, Step.calls] using all
  | leaf _ _ leaf compiled opened _ ih =>
    have all := (Draft.composes_openElement compiled opened).trans ih
    simpa [callsOf, Step.calls, show (opening _ _ _).selfClosing = true from leaf] using all
  | @parent _ _ _ _ _ _ name _ _ v _ _ _ _ leaf compiled opened _ _ inner ih =>
    have inside := inner.trans (Draft.composes_closeElement name v)
    have all := (Draft.composes_openElement compiled opened).trans (inside.trans ih)
    simpa [callsOf, Step.calls, show (opening _ _ _).selfClosing = false from leaf] using all

end Walk

namespace Template

open Component (Piece DeclaredAs attributeReads isHandler)

theorem start_sound (t : Template) (options : Option ComponentOptions) (roots : List Node)
    (format : Format) : (t.start options roots format).registry.Sound := by
  constructor <;> simp [Registry.names, start_keys]

theorem start_component (t : Template) (options : Option ComponentOptions) (roots : List Node)
    {format : Format} {defaults : ComponentOptions} (component : format.kind = .component defaults) :
    ∃ d : Component.Draft, t.start options roots format = .component d ∧
      d.options = options.getD defaults ∧ d.written = "" ∧ d.styles = "" := by
  unfold start Draft.start
  rw [component]
  exact ⟨_, rfl, rfl, rfl, rfl⟩

/-- In a run of a component format that ends well, everything the walk tells is one piece of the markup.
Every key that a piece reads, as a styled property, a value, a test or in an attribute, is one parameter
and one field of the properties; only an attribute that holds keys themselves must for that have one
binding at most. Every key that an attribute binds is declared so, and without a question mark if some
attribute requires it. -/
theorem declared_keys (t : Template) (options : Option ComponentOptions) (roots : List Node)
    (rules : List Style.Rule) (format : Format) {defaults : ComponentOptions}
    (component : format.kind = .component defaults) {files : FileMap}
    (compiled : (t.compileTo options roots rules format).outcome = .ok files) :
    ∃ (d : Component.Draft) (calls : List Walk.Call) (pieces : List Piece),
      files = d.files t.css (hasMultipleRoots roots) ∧ d.options = options.getD defaults ∧
      (Walk.walk (t.context rules).recorded roots (t.start options roots format, [])).outcome =
        .ok ((), .component d, calls) ∧
      List.Forall₂ Piece.Tells calls pieces ∧
      d.written = Text.concat (pieces.map (Piece.write d)) ∧
      d.styles = Text.concat (pieces.map (Piece.definition d)) ∧
      ∀ p ∈ pieces,
        (∀ key ∈ p.keys, ∃ k, DeclaredAs d.registry key k) ∧
        (∀ a ∈ p.rendered d, (isHandler a.name = true → a.bindings.length ≤ 1) →
          ∀ key ∈ attributeReads a, ∃ k, DeclaredAs d.registry key k) ∧
        ∀ a ∈ p.attributes, ∀ b ∈ a.bindings, ∃ k, DeclaredAs d.registry b.key k ∧
          (b.optional = false → k.optional = false) := by
  rw [compileTo_eq] at compiled
  obtain ⟨⟨_, draft⟩, walked, done⟩ := Reported.bind_eq_ok compiled
  cases done
  obtain ⟨steps, walks⟩ := Walk.Walks.of_walk roots walked
  obtain ⟨first, start, given, blank, unstyled⟩ := start_component t options roots component
  obtain ⟨grants, pieces, d, rfl, adds⟩ := walks.composes first start
  have sound : d.registry.Sound := by
    refine adds.made.sound ?_
    rw [show first.registry = (t.start options roots format).registry by rw [start]; rfl]
    exact start_sound t options roots format
  have declared : ∀ g ∈ grants, ∃ k, DeclaredAs d.registry g.key k ∧
      (g.definition.optional = false → k.optional = false) := by
    intro g member
    obtain ⟨k, found⟩ := Registry.exists_get?_of_mem (adds.made.mem_names member)
    refine ⟨k, Component.declaredAs_of_get? sound.distinct found, fun required => ?_⟩
    by_contra optional
    have asked := adds.made.optional_of_mem member found (by simpa using optional)
    rw [required] at asked
    cases asked
  have bound : ∀ p ∈ pieces, ∀ a ∈ p.attributes, ∀ b ∈ a.bindings, ∃ k,
      DeclaredAs d.registry b.key k ∧ (b.optional = false → k.optional = false) := by
    intro p member a held b inside
    obtain ⟨g, given, fits, -⟩ := adds.attributes p member a held b inside
    rw [← fits.key, ← fits.optional]
    exact declared g given
  refine ⟨d, Walk.callsOf steps, pieces, rfl, adds.options.trans given, (walks.recorded []).walk_eq_ok,
    adds.told, ?_, ?_, fun p member => ⟨?_, ?_, bound p member⟩⟩
  · rw [adds.written, blank, String.empty_append, Piece.write_of_options adds.options]
  · rw [adds.styles, unstyled, String.empty_append, Piece.definition_of_options adds.options]
  · intro key read
    obtain ⟨g, given, rfl⟩ := adds.keys p member key read
    obtain ⟨k, once, -⟩ := declared g given
    exact ⟨k, once⟩
  · intro a written sole key read
    obtain ⟨b, inside, rfl⟩ := List.mem_map.mp (Component.attributeReads_subset sole read)
    obtain ⟨k, once, -⟩ := bound p member a (List.mem_filter.mp written).1 b inside
    exact ⟨k, once⟩

/-- A marker requires the key that a variable shares. -/
theorem declared_keys_shared :
    let t : Template := { id := "card", html := "" }
    let roots : List Node := [.element { tag := variableTag, attrs := [⟨"key", "size"⟩] } [],
      .element { tag := "p", attrs := [⟨"title", "\x7b\x7b size \x7d\x7d"⟩] } []]
    let files : FileMap := [("react-ts/card.tsx",
      "import React from 'react';\n\ntype Props = \x7b\n  size: string;\n\x7d;\n\n" ++
      "const Card = (\x7b size \x7d: Props) => (\n  <React.Fragment>\x7bsize\x7d" ++
      "<p title=\x7bsize\x7d></p></React.Fragment>\n);\n\nexport default Card;\n")]
    (t.compileTo none roots [] .reactTs).outcome = .ok files ∧
      ∃ (d : Component.Draft) (k : KeyDefinition), files = d.files "" true ∧
        DeclaredAs d.registry "size" k ∧ k.optional = false := by
  intro t roots files
  have compiled : (t.compileTo none roots [] .reactTs).outcome = .ok files :=
    ok_of_toOption (by decide +kernel)
  obtain ⟨d, calls, pieces, written, -, told, tells, -, -, declared⟩ :=
    declared_keys t none roots [] .reactTs rfl compiled
  have shown : ((Walk.walk (t.context []).recorded roots
        (t.start none roots .reactTs, [])).outcome.toOption.map fun run =>
          (run.2.2.flatMap Walk.Call.attributes).flatMap (·.bindings)) =
      some [{ key := "size", optional := false, type := .string }] := by decide +kernel
  rw [told] at shown
  have member : ({ key := "size", optional := false, type := .string } : Binding) ∈
      (calls.flatMap Walk.Call.attributes).flatMap (·.bindings) := by
    rw [show (calls.flatMap Walk.Call.attributes).flatMap (·.bindings) = _ from Option.some.inj shown]
    exact List.mem_singleton_self _
  obtain ⟨a, held, bound⟩ := List.mem_flatMap.mp member
  obtain ⟨p, inside, own⟩ := Piece.exists_of_tells tells held
  obtain ⟨k, once, required⟩ := (declared p inside).2.2 a own _ bound
  exact ⟨compiled, d, k, written, once, required rfl⟩

/-- Several markers in a reference: it reads a name that is no parameter. -/
theorem declared_keys_joined :
    let t : Template := { id := "card", html := "" }
    let roots : List Node :=
      [.element { tag := "p", attrs := [⟨"ref", "\x7b\x7b a \x7d\x7d \x7b\x7b b \x7d\x7d"⟩] } []]
    (t.compileTo none roots [] .reactTs).outcome.toOption = some [("react-ts/card.tsx",
      "import React from 'react';\n\ntype Props = \x7b\n  a: string;\n  b: string;\n\x7d;\n\n" ++
      "const Card = (\x7b a, b \x7d: Props) => (\n  <p ref=\x7bab\x7d></p>\n);\n\n" ++
      "export default Card;\n")] := by
  decide +kernel

end Template

end Stencil
