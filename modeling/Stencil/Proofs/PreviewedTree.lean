import Stencil.Proofs.SettledElement

/-! A tree in a preview. What an element contributes is either decided by itself or written around its
contents, and the walk stops at the first error; either way the tree that is left has the shape it had,
with some elements settled. A later reader of the tree can tell the difference in one place only: where
a text lists attributes in the order in which they stand. -/
namespace Stencil.Preview

open Markup (Node Element Attr)
open Template (elements elementsOf Distinct)

/-- What a preview makes of an element. -/
inductive Handling where
  /-- The element alone decides, and its contents are not visited. -/
  | alone (result : Except CompileError String)
  /-- The contents are written between these texts. -/
  | around (opening closing : String)

section Walk

variable (template : String) (values : Values)

def handling (e : Element) : Handling :=
  if e.tag == variableTag then
    match values.get? (Text.trim (e.authored "key")) with
    | some value => .alone (.ok (escapeText value))
    | none => .around "" ""
  else if e.tag == conditionTag then
    match Condition.parse? (e.authored "key") with
    | none => .alone (.error (.invalidCondition template (e.authored "key")))
    | some condition => if holds condition values then .around "" "" else .alone (.ok "")
  else
    match outcome template values e e.attrs with
    | .error reason => .alone (.error reason)
    | .ok () =>
      if e.isLeaf then .alone (.ok (openTag (presented values e)))
      else .around (openTag (presented values e)) ("</" ++ e.tag ++ ">")

/-- Variables and conditions are read and never written to. -/
def binds (e : Element) : Bool := !(e.tag == variableTag) && !(e.tag == conditionTag)

/-- The element once the preview is past it. -/
def left (e : Element) : Element := if binds e then settled values e else e

theorem map_nothing_around (html : Except CompileError String) : html.map ("" ++ · ++ "") = html := by
  cases html <;> simp [Except.map]

/-- What a preview makes of an element and its contents, and what it leaves of them. -/
theorem renderNode_element {e : Element} (distinct : (e.attrs.map (·.name)).Nodup) (children : List Node) :
    renderNode template values (.element e children) =
      match handling template values e with
      | .alone result => (result, .element (left values e) children)
      | .around opening closing =>
        ((render template values children).1.map (opening ++ · ++ closing),
          .element (left values e) (render template values children).2) := by
  unfold renderNode handling left binds
  cases isVariable : e.tag == variableTag with
  | true =>
    simp only [if_true, Bool.not_true, Bool.false_and, Bool.false_eq_true, if_false]
    cases values.get? (Text.trim (e.authored "key")) with
    | some value => rfl
    | none => simp only [map_nothing_around]
  | false =>
    simp only [Bool.false_eq_true, if_false, Bool.not_false, Bool.true_and]
    cases isCondition : e.tag == conditionTag with
    | true =>
      simp only [if_true, Bool.not_true, Bool.false_eq_true, if_false]
      cases Condition.parse? (e.authored "key") with
      | none => rfl
      | some condition =>
        cases shown : holds condition values with
        | true => simp only [shown, if_true, map_nothing_around]
        | false => simp only [shown, Bool.false_eq_true, if_false]
    | false =>
      simp only [Bool.false_eq_true, if_false, Bool.not_false, if_true]
      obtain ⟨s, run, node, back⟩ := bindElement_eq template values distinct
      rw [run]
      cases outcome template values e e.attrs with
      | error reason => simp only [abandon_eq values back]
      | ok =>
        cases leaf : e.isLeaf with
        | true => simp [finish_eq values node back, leaf]
        | false =>
          rcases render template values children with ⟨reason | contents, after⟩
          · simp [abandon_eq values back, Except.map]
          · simp [finish_eq values node back, leaf, Except.map, String.append_assoc]

theorem render_cons (n : Node) (rest : List Node) :
    render template values (n :: rest) =
      match (renderNode template values n).1 with
      | .error reason => (.error reason, (renderNode template values n).2 :: rest)
      | .ok html =>
        ((render template values rest).1.map (html ++ ·),
          (renderNode template values n).2 :: (render template values rest).2) := by
  rw [render]
  rcases renderNode template values n with ⟨reason | html, n'⟩ <;> rfl

/-- A tree of one element without contents. -/
theorem render_childless {e : Element} (distinct : (e.attrs.map (·.name)).Nodup) :
    (render template values [.element e []]).2 = [.element (left values e) []] := by
  have visited : (renderNode template values (.element e [])).2 = .element (left values e) [] := by
    rw [renderNode_element template values distinct]
    cases handling template values e <;> simp [render]
  rw [render_cons]
  cases (renderNode template values (.element e [])).1 <;> simp [visited, render]

end Walk

section Left

variable {values : Values} {e : Element}

theorem left_perm (values : Values) (e : Element) : (left values e).attrs.Perm e.attrs := by
  unfold left
  split
  · exact settled_perm values e
  · exact .refl _

@[simp] theorem left_tag (values : Values) (e : Element) : (left values e).tag = e.tag := by
  unfold left
  split <;> rfl

@[simp] theorem left_selfClosing (values : Values) (e : Element) :
    (left values e).selfClosing = e.selfClosing := by
  unfold left
  split <;> rfl

theorem left_distinct (distinct : (e.attrs.map (·.name)).Nodup) :
    ((left values e).attrs.map (·.name)).Nodup :=
  ((left_perm values e).map _).nodup_iff.mpr distinct

theorem left_get? (distinct : (e.attrs.map (·.name)).Nodup) (name : String) :
    (left values e).get? name = e.get? name := by
  unfold left
  split
  · exact get?_settled distinct name
  · rfl

theorem left_authored (distinct : (e.attrs.map (·.name)).Nodup) (name : String) :
    (left values e).authored name = e.authored name := by
  unfold left
  split
  · exact authored_settled distinct name
  · rfl

/-- The element that is left is handled as the element was. -/
theorem handling_left (template : String) (distinct : (e.attrs.map (·.name)).Nodup) :
    handling template values (left values e) = handling template values e := by
  unfold left
  split
  · rename_i bound
    obtain ⟨notVariable, notCondition⟩ : e.tag ≠ variableTag ∧ e.tag ≠ conditionTag := by
      simpa [binds] using bound
    have tag : (settled values e).tag = e.tag := rfl
    have leaf : (settled values e).isLeaf = e.isLeaf := rfl
    unfold handling
    rw [tag, leaf, outcome_settled distinct]
    simp only [beq_iff_eq, notVariable, notCondition, if_false]
    cases shown : outcome template values e e.attrs with
    | error reason => rfl
    | ok =>
      have written : openTag (presented values (settled values e)) = openTag (presented values e) := by
        rw [openTag, openTag, Element.openTag, Element.openTag, attrs_presented_settled distinct shown]
        rfl
      rw [written]
  · rfl

end Left

section Again

variable (template : String) (values : Values)

mutual

theorem renderNode_again : (n : Node) → Distinct (elementsOf n) →
    (renderNode template values (renderNode template values n).2).1 = (renderNode template values n).1
  | .element e children, distinct => by
    have own := distinct e (by simp [elementsOf])
    have below : Distinct (elements children) := fun x member => distinct x (by simp [elementsOf, member])
    have inside := render_again children below
    rw [renderNode_element template values own]
    cases handled : handling template values e with
    | alone result =>
      dsimp only
      rw [renderNode_element template values (left_distinct own), handling_left template own, handled]
    | around opening closing =>
      dsimp only
      rw [renderNode_element template values (left_distinct own), handling_left template own, handled]
      dsimp only
      rw [inside]
  | .text _, _ => rfl
  | .comment _, _ => rfl

/-- A preview of the tree that a preview left has the result of the first. -/
theorem render_again : (nodes : List Node) → Distinct (elements nodes) →
    (render template values (render template values nodes).2).1 = (render template values nodes).1
  | [], _ => rfl
  | n :: rest, distinct => by
    have first := renderNode_again n fun x member => distinct x (by simp [elements, member])
    have later := render_again rest fun x member => distinct x (by simp [elements, member])
    rw [render_cons template values n rest]
    cases here : (renderNode template values n).1 with
    | error reason =>
      dsimp only
      rw [render_cons, first, here]
    | ok html =>
      dsimp only
      rw [render_cons, first, here]
      dsimp only
      rw [later]

end

end Again

mutual

/-- Trees of one shape and with the same texts and comments, whose elements belong together. -/
def Matched (R : Element → Element → Prop) : Node → Node → Prop
  | .element e children, .element e' children' => R e e' ∧ MatchedAll R children children'
  | .text t, .text t' => t = t'
  | .comment c, .comment c' => c = c'
  | _, _ => False

def MatchedAll (R : Element → Element → Prop) : List Node → List Node → Prop
  | [], [] => True
  | n :: rest, n' :: rest' => Matched R n n' ∧ MatchedAll R rest rest'
  | _, _ => False

end

section Matched

variable {R : Element → Element → Prop}

mutual

theorem matched_refl (same : ∀ e, R e e) : (n : Node) → Matched R n n
  | .element e children => ⟨same e, matchedAll_refl same children⟩
  | .text _ => rfl
  | .comment _ => rfl

theorem matchedAll_refl (same : ∀ e, R e e) : (nodes : List Node) → MatchedAll R nodes nodes
  | [] => trivial
  | n :: rest => ⟨matched_refl same n, matchedAll_refl same rest⟩

end

variable (template : String) {values : Values}

mutual

theorem matched_renderNode (same : ∀ e, R e e)
    (settles : ∀ e, (e.attrs.map (·.name)).Nodup → R e (left values e)) :
    (n : Node) → Distinct (elementsOf n) → Matched R n (renderNode template values n).2
  | .element e children, distinct => by
    have own := distinct e (by simp [elementsOf])
    have below : Distinct (elements children) := fun x member => distinct x (by simp [elementsOf, member])
    rw [renderNode_element template values own]
    cases handling template values e with
    | alone result => exact ⟨settles e own, matchedAll_refl same children⟩
    | around opening closing => exact ⟨settles e own, matchedAll_render same settles children below⟩
  | .text _, _ => rfl
  | .comment _, _ => rfl

/-- Whatever holds between an element and what is left of it holds all over the tree, up to the first
error and, trivially, behind it. -/
theorem matchedAll_render (same : ∀ e, R e e)
    (settles : ∀ e, (e.attrs.map (·.name)).Nodup → R e (left values e)) :
    (nodes : List Node) → Distinct (elements nodes) → MatchedAll R nodes (render template values nodes).2
  | [], _ => trivial
  | n :: rest, distinct => by
    have first := matched_renderNode same settles n fun x member => distinct x (by simp [elements, member])
    have later := matchedAll_render same settles rest fun x member => distinct x (by simp [elements, member])
    rw [render_cons]
    cases (renderNode template values n).1 with
    | error reason => exact ⟨first, matchedAll_refl same rest⟩
    | ok html => exact ⟨first, later⟩

end

end Matched

/-- No reader of single attributes tells the elements apart. -/
structure ReadAlike (e e' : Element) : Prop where
  tag : e'.tag = e.tag
  selfClosing : e'.selfClosing = e.selfClosing
  names : (e'.attrs.map (·.name)).Perm (e.attrs.map (·.name))
  get? : ∀ name, e'.get? name = e.get? name
  authored : ∀ name, e'.authored name = e.authored name

theorem readAlike_refl (e : Element) : ReadAlike e e where
  tag := rfl
  selfClosing := rfl
  names := .refl _
  get? _ := rfl
  authored _ := rfl

theorem readAlike_left (values : Values) (e : Element) (distinct : (e.attrs.map (·.name)).Nodup) :
    ReadAlike e (left values e) where
  tag := left_tag values e
  selfClosing := left_selfClosing values e
  names := (left_perm values e).map _
  get? := left_get? distinct
  authored := left_authored distinct

/-- Compiling the attributes of either element, into whatever keys there are, gives the same attributes
or the same reason for a failure, and the same keys. The whole result is the same unless a failure quotes
the attributes in another order. -/
def CompiledAlike (e e' : Element) : Prop :=
  ∀ tag template registry,
    let before := Attribute.compile Markup.Access.ofElement tag template { node := e, registry }
    let after := Attribute.compile Markup.Access.ofElement tag template { node := e', registry }
    after.2.registry = before.2.registry ∧ after.2.notices = before.2.notices ∧
      after.1.mapError (fun f => (f.template, f.reason)) =
        before.1.mapError (fun f => (f.template, f.reason)) ∧
      (after.1 = before.1 ↔ before.1.isOk = true ∨
        (Attribute.describe Markup.Access.ofElement tag e').1 =
          (Attribute.describe Markup.Access.ofElement tag e).1)

theorem matches_of_readAlike {e e' : Element} (alike : ReadAlike e e') :
    Markup.Access.Matches (fun x y => x = e ∧ y = e') List.Perm Markup.Access.ofElement
      Markup.Access.ofElement where
  attributeNames := by
    rintro _ _ ⟨rfl, rfl⟩
    exact ⟨.ok alike.names.symm, rfl, rfl⟩
  read name := by
    rintro _ _ ⟨rfl, rfl⟩
    rw [Attribute.read_ofElement, Attribute.read_ofElement]
    exact ⟨.ok (alike.authored name).symm, rfl, rfl⟩

theorem compiledAlike_of_readAlike {e e' : Element} (alike : ReadAlike e e') : CompiledAlike e e' := by
  intro tag template registry
  have all := Attribute.alike_compileAll (Text.toLowerAscii tag) (matches_of_readAlike alike)
    fun _ _ permuted => permuted
  obtain ⟨ended, kept⟩ := all { node := e, registry } { node := e', registry } ⟨⟨rfl, rfl⟩, rfl, rfl⟩
  unfold Attribute.compile
  rcases here : Attribute.compileAll Markup.Access.ofElement (Text.toLowerAscii tag)
    { node := e, registry } with ⟨first, s⟩
  rcases there : Attribute.compileAll Markup.Access.ofElement (Text.toLowerAscii tag)
    { node := e', registry } with ⟨second, t⟩
  rw [here, there] at ended kept
  obtain ⟨⟨node, node'⟩, sameRegistry, sameNotices⟩ := kept
  dsimp only at ended node node' sameRegistry sameNotices
  rcases ended with same | reason
  · rw [same]
    exact ⟨sameRegistry.symm, sameNotices.symm, rfl, iff_of_true rfl (.inl rfl)⟩
  · dsimp only
    rw [node, node']
    refine ⟨sameRegistry.symm, sameNotices.symm, rfl, ?_⟩
    constructor
    · intro equal
      have failures := Except.error.inj equal
      exact .inr (congrArg AttributeFailure.snippet failures)
    · rintro (succeeded | quoted)
      · cases succeeded
      · exact congrArg (fun snippet => Except.error (AttributeFailure.mk template snippet reason)) quoted

/-- A preview is not seen by later readers: the tree keeps its shape and, at each element, every value;
compiling gives what it gave, but for the order of attributes in a message; a second preview has the
result of the first. -/
theorem preview_unseen {roots : List Node} (distinct : Distinct (elements roots)) (template : String)
    (values : Values) :
    MatchedAll ReadAlike roots (render template values roots).2 ∧
      MatchedAll CompiledAlike roots (render template values roots).2 ∧
      (render template values (render template values roots).2).1 = (render template values roots).1 := by
  refine ⟨?_, ?_, render_again template values roots distinct⟩
  · exact matchedAll_render template readAlike_refl (readAlike_left values) roots distinct
  · apply matchedAll_render template _ _ roots distinct
    · intro e
      exact compiledAlike_of_readAlike (readAlike_refl e)
    · intro e own
      exact compiledAlike_of_readAlike (readAlike_left values e own)

/-- A link that has already lost its first title, in a preview without values. -/
theorem preview_unseen_link :
    let link : Element := {
      tag := "a"
      attrs := [⟨"href", "{{ href }}"⟩, ⟨"title", "{{ hint }}"⟩]
      pristine := [⟨"title", "{{ title }}"⟩] }
    let roots : List Node := [.element link [.text "go"]]
    Distinct (elements roots) ∧
      MatchedAll ReadAlike roots (render "link" [] roots).2 ∧
      MatchedAll CompiledAlike roots (render "link" [] roots).2 ∧
      (render "link" [] (render "link" [] roots).2).1 = (render "link" [] roots).1 := by
  intro link roots
  have distinct : Distinct (elements roots) := by
    simp [roots, link, Distinct, elements, elementsOf]
  exact ⟨distinct, preview_unseen distinct "link" []⟩

/-- An element whose attributes cannot be read, in the order of their names, cannot be compiled. -/
theorem isOk_compile_of_unread {e : Element} {tag : String} (template : String) {r : Registry}
    {names : List String} (sorted : Attribute.sortNames (e.attrs.map (·.name)) = names)
    (unread : (Attribute.authored Markup.Access.ofElement (Text.toLowerAscii tag) names
      { node := e, registry := r }).1.isOk = false) :
    (Attribute.compile Markup.Access.ofElement tag template { node := e, registry := r }).1.isOk = false := by
  rcases made : Attribute.compile Markup.Access.ofElement tag template { node := e, registry := r } with
    ⟨failure | full, after⟩
  · rfl
  · obtain ⟨listed, start, written, t, -, -, named, read, -⟩ :=
      Attribute.compileAll_eq_ok (Attribute.compile_eq_ok made)
    cases named
    change Attribute.authored _ _ (Attribute.sortNames (e.attrs.map (·.name))) _ = _ at read
    rw [sorted] at read
    rw [read] at unread
    cases unread

/-- An address without a key cannot be compiled, and the message quotes the link as the preview left it:
with its title behind the address. -/
theorem preview_seen_in_message :
    let link : Element := { tag := "a", attrs := [⟨"title", "{{ hint }}"⟩, ⟨"href", "{{ : }}"⟩] }
    let left : Element := {
      tag := "a"
      attrs := [⟨"href", "{{ : }}"⟩, ⟨"title", "{{ hint }}"⟩]
      pristine := [⟨"title", "{{ hint }}"⟩] }
    (link.attrs.map (·.name)).Nodup ∧ (render "card" [] [.element link []]).2 = [.element left []] ∧
      (Attribute.compile Markup.Access.ofElement "a" "card" { node := left, registry := {} }).1 ≠
        (Attribute.compile Markup.Access.ofElement "a" "card" { node := link, registry := {} }).1 := by
  intro link left
  have distinct : (link.attrs.map (·.name)).Nodup := by decide
  have rendered : (render "card" [] [.element link []]).2 = [.element left []] := by
    have fates : fated [] link link.attrs = [⟨⟨"title", "{{ hint }}"⟩, .gone⟩] := by decide +kernel
    have rest : unreached [] link link.attrs = [⟨"href", "{{ : }}"⟩] := by decide +kernel
    have stays : Preview.left [] link = left := by
      rw [Preview.left, if_pos (by decide), settled, placed, moved, fates, rest]
      decide
    rw [render_childless "card" [] distinct, stays]
  have alike : ReadAlike link left := by
    have tree := matchedAll_render "card" readAlike_refl (readAlike_left []) [.element link []]
      (by simpa [Distinct, elements, elementsOf] using distinct)
    rw [rendered] at tree
    exact tree.1.1
  have sorted : Attribute.sortNames (link.attrs.map (·.name)) = ["href", "title"] :=
    (Attribute.sortNames_eq_of_perm (.swap ..)).trans (List.mergeSort_of_pairwise (by decide))
  have unread : (Attribute.authored Markup.Access.ofElement (Text.toLowerAscii "a") ["href", "title"]
      { node := link, registry := {} }).1.isOk = false := by decide +kernel
  have failed := isOk_compile_of_unread "card" sorted unread
  have quoted : (Attribute.describe Markup.Access.ofElement "a" left).1 ≠
      (Attribute.describe Markup.Access.ofElement "a" link).1 := by decide
  refine ⟨distinct, rendered, ?_⟩
  rw [Ne, (compiledAlike_of_readAlike alike "a" "card" {}).2.2.2, failed]
  simpa using quoted

end Stencil.Preview
