import Mathlib.Data.List.Nodup
import Stencil.Proofs.AttributeNames
import Stencil.Proofs.DeclaredKeys
import Stencil.Proofs.RemoteElement
import Stencil.Proofs.Skeleton

/-! The names that stand in the opening tags of a component. They are the keys that the rules of the element
read, the attributes of the element under the names that components have for them, and its handlers. No
two attributes of the markup are written under one name. A name stands twice in two cases only: the
author of a control wrote a reference beside the one that every control gets, and a key that the rules
read is called like an attribute that is written. -/
namespace Stencil

open Markup (Node Element NoCapitals)

namespace Component

def attributeValue (a : Attribute) : String :=
  if isHandler a.name then braced (Text.concat (a.bindings.map (·.key)))
  else if a.name == "style" then braced (styleObject a.text)
  else if a.isStatic then staticValue a
  else braced (boundValue a).write

theorem propName_of_isHandler {name : String} (handler : isHandler name = true) : propName name = name := by
  have table : ∀ name ∈ ["onChange", "onClick", "ref"], propName name = name := by decide
  exact table name (List.contains_iff_mem.mp handler)

theorem writeAttribute_eq_assignment (a : Attribute) :
    writeAttribute a = " " ++ propName a.name ++ "=" ++ attributeValue a := by
  unfold writeAttribute renderAttribute attributeValue
  split
  · rename_i handler
    rw [propName_of_isHandler handler]
  · split
    · rename_i style
      rw [show a.name = "style" by simpa using style, show propName "style" = "style" by decide]
      simp only [String.append_assoc]
      rfl
    · split <;> rfl

section

variable {name other : String}

/-- A name as markup spells it, or one of a handler. -/
def Spelled (name : String) : Prop := NoCapitals name ∨ isHandler name = true

theorem propName_cases (name : String) :
    propName name = name ∨ (name, propName name) ∈ propNames := by
  unfold propName
  cases known : propNames.lookup name with
  | none => exact .inl rfl
  | some spelling =>
    obtain ⟨before, after, split, -⟩ := List.lookup_eq_some_iff.mp known
    exact .inr (split ▸ List.mem_append_right before (List.mem_cons_self ..))

/-- What components spell differently gets a capital, and none of these names is one of a handler. -/
theorem not_spelled_of_mem {spelling : String} (member : (name, spelling) ∈ propNames) :
    ¬Spelled spelling := by
  have table : ∀ entry ∈ propNames, ¬NoCapitals entry.2 ∧ isHandler entry.2 = false := by decide +kernel
  obtain ⟨capital, other⟩ := table (name, spelling) member
  rintro (small | handler)
  · exact capital small
  · rw [other] at handler
    cases handler

theorem propName_inj (spelled : Spelled name) (spelled' : Spelled other)
    (same : propName name = propName other) : name = other := by
  rcases propName_cases name with own | listed
  · rcases propName_cases other with own' | listed'
    · rw [← own, same, own']
    · rw [← same, own] at listed'
      exact absurd spelled (not_spelled_of_mem listed')
  · rcases propName_cases other with own' | listed'
    · rw [same, own'] at listed
      exact absurd spelled' (not_spelled_of_mem listed)
    · have distinct : ∀ p ∈ propNames, ∀ q ∈ propNames, p.2 = q.2 → p.1 = q.1 := by decide +kernel
      exact distinct _ listed _ listed' same

end

namespace Draft

theorem handlersFor_sublist (tag : String) (attributes : List Attribute) :
    ((handlersFor tag attributes).map (·.1)).Sublist ["onChange", "ref", "onClick"] := by
  unfold handlersFor
  dsimp only
  split <;> split <;> simp

end Draft

namespace Piece

/-- The names that stand in the piece, each with what is written for it. -/
def assignments (d : Draft) (p : Piece) : List (String × String) :=
  p.keys.map (fun key => (key, braced key)) ++
    (p.rendered d).map fun a => (propName a.name, attributeValue a)

theorem write_opening_eq (d : Draft) (tag name : String) (attributes : List Attribute)
    (styled : Option StyledRules) (selfClosing : Bool) :
    (opening tag name attributes styled selfClosing).write d =
      "<" ++ name ++ Text.concat (((opening tag name attributes styled selfClosing).assignments d).map
        fun part => " " ++ part.1 ++ "=" ++ part.2) ++ (if selfClosing then " />" else ">") := by
  have written : (opening tag name attributes styled selfClosing).write d =
      "<" ++ name ++ Text.concat ((styled.elim [] (·.props)).map fun key => " " ++ key ++ "=" ++ braced key) ++
        Text.concat (((opening tag name attributes styled selfClosing).rendered d).map writeAttribute) ++
        (if selfClosing then " />" else ">") := write_opening ..
  rw [written, assignments, List.map_append, Text.concat_append, List.map_map, List.map_map,
    ← String.append_assoc]
  congr 4
  exact funext writeAttribute_eq_assignment

section

variable {p : Piece} {own added : List Attribute} (split : p.attributes = own ++ added)
  (distinct : (own.map (·.name)).Nodup) (small : ∀ a ∈ own, NoCapitals a.name)
  (handled : (added.map (·.name)).Sublist ["onChange", "ref", "onClick"])

include small handled

theorem spelled_of_mem {a : Attribute} (member : a ∈ own ++ added) : Spelled a.name := by
  rcases List.mem_append.mp member with old | new
  · exact .inl (small a old)
  · have handlers : ∀ name ∈ ["onChange", "ref", "onClick"], isHandler name = true := by decide
    exact .inr (handlers a.name (handled.subset (List.mem_map_of_mem new)))

include distinct

/-- Attributes in markup have small letters, so of the handlers only a reference can be one of them. -/
theorem nodup_names (apart : ¬("ref" ∈ own.map (·.name) ∧ "ref" ∈ added.map (·.name))) :
    ((own ++ added).map (·.name)).Nodup := by
  rw [List.map_append]
  refine List.nodup_append.mpr ⟨distinct, handled.nodup (by decide), ?_⟩
  rintro name here _ there rfl
  obtain ⟨a, member, named⟩ := List.mem_map.mp here
  have lower : NoCapitals name := named ▸ small a member
  have capitals : ∀ name ∈ ["onChange", "ref", "onClick"], NoCapitals name → name = "ref" := by decide
  obtain rfl := capitals name (handled.subset there) lower
  exact apart ⟨here, there⟩

include split

theorem nodup_rendered_iff (d : Draft) :
    ((p.rendered d).map fun a => propName a.name).Nodup ↔
      ¬("ref" ∈ own.map (·.name) ∧ "ref" ∈ added.map (·.name)) := by
  unfold rendered
  rw [split]
  constructor
  · rintro once ⟨here, there⟩
    obtain ⟨a, old, first⟩ := List.mem_map.mp here
    obtain ⟨b, new, second⟩ := List.mem_map.mp there
    rw [List.filter_append, List.map_append] at once
    have kept : ∀ c : Attribute, c.name = "ref" → (!(d.isStyled && c.name == "class")) = true := by
      intro c named
      simp [named]
    refine (List.nodup_append.mp once).2.2 (propName a.name) ?_ (propName b.name) ?_ (by rw [first, second])
    · exact List.mem_map_of_mem (List.mem_filter.mpr ⟨old, kept a first⟩)
    · exact List.mem_map_of_mem (List.mem_filter.mpr ⟨new, kept b second⟩)
  · intro apart
    have names := nodup_names distinct small handled apart
    have filtered := (List.filter_sublist (p := fun a : Attribute =>
      !(d.isStyled && a.name == "class")) (l := own ++ added)).map (·.name)
    have once := (names.sublist filtered).map_on (f := propName) fun x inside y within same => by
      obtain ⟨a, member, rfl⟩ := List.mem_map.mp (filtered.subset inside)
      obtain ⟨b, known, rfl⟩ := List.mem_map.mp (filtered.subset within)
      exact propName_inj (spelled_of_mem small handled member) (spelled_of_mem small handled known) same
    simpa [Function.comp_def] using once

/-- No name stands twice if the element has one reference at most and no key of its rules is called like an
attribute that is written. -/
theorem nodup_assignments_iff (d : Draft) (props : p.keys.Nodup) :
    ((p.assignments d).map (·.1)).Nodup ↔
      ¬("ref" ∈ own.map (·.name) ∧ "ref" ∈ added.map (·.name)) ∧
      ∀ key ∈ p.keys, ∀ a ∈ p.rendered d, propName a.name ≠ key := by
  have names : (p.assignments d).map (·.1) = p.keys ++ (p.rendered d).map fun a => propName a.name := by
    simp [assignments, Function.comp_def]
  rw [names, List.nodup_append, nodup_rendered_iff split distinct small handled d]
  constructor
  · rintro ⟨-, apart, others⟩
    exact ⟨apart, fun key read a member same => others key read _ (List.mem_map_of_mem member) same.symm⟩
  · rintro ⟨apart, others⟩
    refine ⟨props, apart, fun key read name written same => ?_⟩
    obtain ⟨a, member, rfl⟩ := List.mem_map.mp written
    exact others key read a member same.symm

end

theorem opening_of_tells {calls : List Walk.Call} {pieces : List Piece} {tag name : String}
    {attributes : List Attribute} {styled : Option StyledRules} {selfClosing : Bool}
    (told : List.Forall₂ Tells calls pieces)
    (member : opening tag name attributes styled selfClosing ∈ pieces) :
    ∃ o added r r', .openElement o name ∈ calls ∧ tag = o.tag ∧ attributes = o.attributes ++ added ∧
      Draft.handlers (Text.toLowerAscii o.tag) (Draft.handlersFor (Text.toLowerAscii o.tag) o.attributes) r =
        .ok (added, r') ∧
      (styled = none ∨
        styled = some (StyledRules.ofRules o.rules (Attribute.find? attributes "class"))) := by
  induction told with
  | nil => cases member
  | cons tells _ ih =>
    rcases List.mem_cons.mp member with rfl | later
    · cases tells with
      | opening handled chosen =>
        exact ⟨_, _, _, _, List.mem_cons_self .., rfl, rfl, handled, chosen⟩
    · obtain ⟨o, added, r, r', opened, rest⟩ := ih later
      exact ⟨o, added, r, r', List.mem_cons_of_mem _ opened, rest⟩

end Piece

/-- An element has each key that its rules read once, and it is one that its class binds. -/
theorem keys_of_styled {rules : List Style.Rule} {own added : List Attribute} {styled : Option StyledRules}
    (chosen : styled = none ∨
      styled = some (StyledRules.ofRules rules (Attribute.find? (own ++ added) "class")))
    (handled : (added.map (·.name)).Sublist ["onChange", "ref", "onClick"]) :
    (styled.elim [] (·.props)).Nodup ∧
      ∀ key ∈ styled.elim [] (·.props), ∃ a ∈ own, a.name = "class" ∧ key ∈ a.bindings.map (·.key) := by
  rcases chosen with rfl | rfl
  · exact ⟨List.nodup_nil, by simp⟩
  · refine ⟨StyledRules.props_nodup _ _, fun key read => ?_⟩
    have bound := StyledRules.props_subset _ _ read
    cases found : Attribute.find? (own ++ added) "class" with
    | none =>
      rw [found] at bound
      cases bound
    | some a =>
      rw [found] at bound
      have named : a.name = "class" := by simpa using List.find?_some found
      refine ⟨a, ?_, named, bound⟩
      rcases List.mem_append.mp (List.mem_of_find?_eq_some found) with old | new
      · exact old
      · have handler := handled.subset (List.mem_map_of_mem new)
        rw [named] at handler
        exact absurd handler (by decide)

end Component

namespace Walk

theorem Walks.compiled {τ : Type} {c : Context τ} {nodes : List Node} {s u : τ} {steps : List Step}
    (walks : Walks c nodes s steps u) : ∀ o ∈ openingsOf steps, ∃ e ∈ Template.elements nodes,
      ∃ r attributes after, Attribute.compile Markup.Access.ofElement e.tag c.template
        { node := e, registry := r } = (.ok attributes, after) ∧ o = opening c e attributes := by
  induction walks with
  | nil => simp [openingsOf]
  | text _ ih => simpa [openingsOf, Step.openings, Template.elements, Template.elementsOf] using ih
  | comment _ ih => simpa [openingsOf, Step.openings, Template.elements, Template.elementsOf] using ih
  | value _ _ _ _ ih =>
    intro o member
    obtain ⟨e, inside, own⟩ := ih o (by simpa [openingsOf, Step.openings] using member)
    exact ⟨e, List.mem_append_right _ inside, own⟩
  | condition _ _ _ _ _ _ inner ih =>
    intro o member
    rcases List.mem_append.mp member with within | later
    · obtain ⟨e, inside, own⟩ := inner o within
      exact ⟨e, List.mem_append_left _ (List.mem_cons_of_mem _ inside), own⟩
    · obtain ⟨e, inside, own⟩ := ih o later
      exact ⟨e, List.mem_append_right _ inside, own⟩
  | leaf _ _ _ compiled _ _ ih =>
    intro o member
    rcases List.mem_cons.mp member with rfl | later
    · exact ⟨_, List.mem_append_left _ (List.mem_cons_self ..), _, _, _, compiled, rfl⟩
    · obtain ⟨e, inside, own⟩ := ih o later
      exact ⟨e, List.mem_append_right _ inside, own⟩
  | parent _ _ _ compiled _ _ _ inner ih =>
    intro o member
    rcases List.mem_append.mp member with here | later
    · rcases List.mem_cons.mp here with rfl | within
      · exact ⟨_, List.mem_append_left _ (List.mem_cons_self ..), _, _, _, compiled, rfl⟩
      · obtain ⟨e, inside, own⟩ := inner o within
        exact ⟨e, List.mem_append_left _ (List.mem_cons_of_mem _ inside), own⟩
    · obtain ⟨e, inside, own⟩ := ih o later
      exact ⟨e, List.mem_append_right _ inside, own⟩

end Walk

namespace Attribute

/-- Of an element that was read, the compiled attributes have small letters and names of their own, and a
reference only if its author wrote one. -/
theorem names_of_named {e : Element} (named : e.Named) {template : String} {r : Registry}
    {own : List Attribute} {after : Compiling Element}
    (done : compile Markup.Access.ofElement e.tag template { node := e, registry := r } = (.ok own, after)) :
    (own.map (·.name)).Nodup ∧ (∀ a ∈ own, NoCapitals a.name) ∧
      ("ref" ∈ own.map (·.name) ↔ "ref" ∈ e.attrs.map (·.name)) := by
  obtain ⟨names, start, more, known, grown, offered, distinct⟩ := names_compile done
  cases known
  refine ⟨distinct named.distinct, ?_, ?_⟩
  · have small : ∀ name ∈ Default.offeredNames, NoCapitals name := by decide +kernel
    intro a member
    have listed : a.name ∈ own.map (·.name) := List.mem_map_of_mem member
    rw [grown] at listed
    rcases List.mem_append.mp listed with written | besides
    · obtain ⟨b, inside, same⟩ := List.mem_map.mp (List.mem_mergeSort.mp written)
      rw [← same]
      exact fun c letter => ((named.attrs b inside).name c letter).1
    · exact small a.name (offered besides)
  · rw [grown, List.mem_append]
    constructor
    · rintro (written | besides)
      · exact List.mem_mergeSort.mp written
      · exact absurd (offered besides) (by decide)
    · exact fun written => .inl (List.mem_mergeSort.mpr written)

end Attribute

namespace Template

open Component (Piece propName)
open Markup (Building)

/-- In a run of a component format that ends well, the markup is a row of pieces. Those that open an element
of the template are written with names and values: the keys that its rules read, which its class binds,
and its compiled attributes and its handlers. The names are all different unless its author wrote a
reference and it is given one as well, or a key that its rules read is the name of an attribute that is
written. -/
theorem names_written_once (t : Template) (options : Option ComponentOptions) {roots : List Node}
    (parsed : Markup.parse t.html = .ok roots) (rules : List Style.Rule) (format : Format)
    {defaults : ComponentOptions} (component : format.kind = .component defaults) {files : FileMap}
    (compiled : (t.compileTo options roots rules format).outcome = .ok files) :
    ∃ (d : Component.Draft) (pieces : List Piece),
      files = d.files t.css (hasMultipleRoots roots) ∧ d.options = options.getD defaults ∧
      d.written = Text.concat (pieces.map (Piece.write d)) ∧
      ∀ p ∈ pieces, ∀ tag name attributes styled selfClosing,
        p = .opening tag name attributes styled selfClosing →
        p.write d = "<" ++ name ++ Text.concat ((p.assignments d).map fun part =>
          " " ++ part.1 ++ "=" ++ part.2) ++ (if selfClosing then " />" else ">") ∧
        ∃ e ∈ elements roots, ∃ r own after added, e.tag = tag ∧
          Attribute.compile Markup.Access.ofElement tag t.id { node := e, registry := r } =
            (.ok own, after) ∧
          attributes = own ++ added ∧
          added.map (·.name) = (Component.Draft.handlersFor (Text.toLowerAscii tag) own).map (·.1) ∧
          (∀ key ∈ p.keys, ∃ a ∈ own, a.name = "class" ∧ key ∈ a.bindings.map (·.key)) ∧
          (((p.assignments d).map (·.1)).Nodup ↔
            ¬("ref" ∈ e.attrs.map (·.name) ∧ "ref" ∈ added.map (·.name)) ∧
            ∀ key ∈ p.keys, ∀ a ∈ p.rendered d, propName a.name ≠ key) := by
  rw [compileTo_eq] at compiled
  obtain ⟨⟨_, draft⟩, walked, done⟩ := Reported.bind_eq_ok compiled
  cases done
  obtain ⟨steps, walks⟩ := Walk.Walks.of_walk roots walked
  obtain ⟨first, start, given, blank, -⟩ := start_component t options roots component
  obtain ⟨grants, pieces, d, rfl, adds⟩ := walks.composes first start
  refine ⟨d, pieces, rfl, adds.options.trans given, ?_, ?_⟩
  · rw [adds.written, blank, String.empty_append, Piece.write_of_options adds.options]
  · rintro p member tag name attributes styled selfClosing rfl
    refine ⟨Piece.write_opening_eq d tag name attributes styled selfClosing, ?_⟩
    obtain ⟨o, added, r', r'', told, rfl, rfl, handled, chosen⟩ :=
      Piece.opening_of_tells adds.told member
    obtain ⟨e, inside, r, own, after, made, rfl⟩ := walks.compiled o (Walk.mem_openingsOf steps told)
    have handlers := Component.Draft.names_handlers handled
    have few : (added.map (·.name)).Sublist ["onChange", "ref", "onClick"] :=
      handlers ▸ Component.Draft.handlersFor_sublist ..
    obtain ⟨once, bound⟩ := Component.keys_of_styled chosen few
    obtain ⟨distinct, small, reference⟩ :=
      Attribute.names_of_named (Markup.named_of_parse parsed e inside) made
    refine ⟨e, inside, r, own, after, added, rfl, made, rfl, handlers, bound, ?_⟩
    rw [← reference]
    exact Piece.nodup_assignments_iff rfl distinct small few d once

/-- A link is no control: it keeps the one reference that its author wrote. -/
theorem names_written_once_link :
    let t : Template := { id := "link", html := "<a ref='\x7b\x7b box \x7d\x7d'>go</a>" }
    let attrs : List Markup.Attr := [⟨"ref", "\x7b\x7b box \x7d\x7d"⟩]
    let roots : List Node := [.element { tag := "a", attrs } [.text "go"]]
    Markup.parse t.html = .ok roots ∧
      ∃ files, (t.compileTo none roots [] .reactTs).outcome = .ok files ∧
        ∃ (d : Component.Draft) (pieces : List Piece), files = d.files "" false ∧
          d.written = Text.concat (pieces.map (Piece.write d)) ∧
          ∀ p ∈ pieces, ∀ tag name attributes styled selfClosing,
            p = .opening tag name attributes styled selfClosing →
            ((p.assignments d).map (·.1)).Nodup := by
  intro t attrs roots
  have parsed : Markup.parse t.html = .ok roots := by
    have events : Markup.Event.scan t.html.toList =
        .ok [.opening { tag := "a", attrs }, .text "go", .closing "a"] := by decide +kernel
    have parent : Markup.isVoid "a" = false := by decide
    unfold Markup.parse
    rw [events]
    simp [Except.map, Markup.forest, Building.step, Element.isLeaf, parent, Building.add, Building.close,
      Building.finish, Building.closeInners, Building.closeInner, Node.isBlank, roots]
  have ended : (t.compileTo none roots [] .reactTs).outcome.toOption.isSome = true := by decide +kernel
  obtain ⟨files, found⟩ := Option.isSome_iff_exists.mp ended
  have compiled := ok_of_toOption found
  obtain ⟨d, pieces, written, -, markup, openings⟩ :=
    names_written_once t none parsed [] .reactTs rfl compiled
  refine ⟨parsed, files, compiled, d, pieces, written, markup, ?_⟩
  intro p member tag name attributes styled selfClosing shape
  obtain ⟨-, e, inside, r, own, after, added, rfl, made, -, handlers, bound, once⟩ :=
    openings p member tag name attributes styled selfClosing shape
  obtain rfl := List.mem_singleton.mp inside
  refine once.mpr ⟨?_, fun key read => ?_⟩
  · rintro ⟨-, reference⟩
    rw [handlers, show Text.toLowerAscii "a" = "a" by decide] at reference
    simp [Component.Draft.handlersFor] at reference
  · obtain ⟨a, held, named, -⟩ := bound key read
    obtain ⟨names, start, more, known, grown, offered, -⟩ := Attribute.names_compile made
    cases known
    have listed : a.name ∈ own.map (·.name) := List.mem_map_of_mem held
    rw [grown, named] at listed
    rcases List.mem_append.mp listed with authored | besides
    · exact absurd (List.mem_mergeSort.mp authored) (show "class" ∉ attrs.map (·.name) by decide)
    · exact absurd (offered besides) (by decide)

/-- The author of a control wrote a reference: it stands beside the one that every control gets. -/
theorem names_written_twice :
    let t : Template := { id := "card", html := "<select ref='\x7b\x7b box \x7d\x7d'></select>" }
    (t.compile [.reactJs] none).outcome.toOption = some [(.reactJs, [("react-js/card.js",
      "import React from 'react';\n\n" ++
      "const Card = (\x7b box, name, multiple, onChange, ref \x7d) => (\n" ++
      "  <select ref=\x7bbox\x7d name=\x7bname\x7d multiple=\x7bmultiple\x7d " ++
      "onChange=\x7bonChange\x7d ref=\x7bref\x7d></select>\n);\n\nexport default Card;\n")])] := by
  decide +kernel

end Template

end Stencil
