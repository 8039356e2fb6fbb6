import Stencil.Proofs.PreviewedTree
import Stencil.Proofs.PrintedMarkup
import Stencil.Proofs.Words

/-! The printed form of a tree after a preview. The elements that were written to are left with their
attributes in another order, unless those that were taken off stood last; and since an attribute can be
told from its print, the markup is the same exactly when that holds wherever the preview came. -/
namespace Stencil.Preview

open Markup (Node Element Attr)
open Template (elements elementsOf Distinct)

/-- The same element but for the order of its attributes and the first values it notes down. -/
structure Arranged (e e' : Element) : Prop where
  tag : e'.tag = e.tag
  selfClosing : e'.selfClosing = e.selfClosing
  attrs : e'.attrs.Perm e.attrs

theorem arranged_refl (e : Element) : Arranged e e where
  tag := rfl
  selfClosing := rfl
  attrs := .refl _

theorem arranged_left (values : Values) (e : Element) : Arranged e (left values e) where
  tag := left_tag values e
  selfClosing := left_selfClosing values e
  attrs := left_perm values e

section Print

variable {e e' : Element}

theorem isLeaf_of_arranged (arranged : Arranged e e') : e'.isLeaf = e.isLeaf := by
  rw [Element.isLeaf, Element.isLeaf, arranged.tag, arranged.selfClosing]

theorem toList_openTag (e : Element) :
    e.openTag.toList = '<' :: (e.tag.toList ++ e.attrs.flatMap (·.render.toList)) := by
  simp [Element.openTag, Text.toList_concat, List.flatMap_map]

theorem length_openTag (arranged : Arranged e e') : e'.openTag.length = e.openTag.length := by
  have attrs := (arranged.attrs.flatMap_right (·.render.toList)).length_eq
  rw [← String.length_toList, ← String.length_toList, toList_openTag, toList_openTag, arranged.tag]
  simp only [List.length_cons, List.length_append, attrs]

mutual

theorem length_render : (n n' : Node) → Matched Arranged n n' → n'.render.length = n.render.length
  | .element e children, .element e' children', ⟨arranged, inside⟩ => by
    have contents := length_renderAll children children' inside
    have opening := length_openTag arranged
    rw [Node.render, Node.render, isLeaf_of_arranged arranged, arranged.tag]
    split <;> simp only [String.length_append, contents, opening]
  | .text _, .text _, same => by rw [show _ = _ from same]
  | .comment _, .comment _, same => by rw [show _ = _ from same]

theorem length_renderAll : (nodes nodes' : List Node) → MatchedAll Arranged nodes nodes' →
    (Node.renderAll nodes').length = (Node.renderAll nodes).length
  | [], [], _ => rfl
  | n :: rest, n' :: rest', ⟨first, later⟩ => by
    rw [Node.renderAll, Node.renderAll, String.length_append, String.length_append,
      length_render n n' first, length_renderAll rest rest' later]

end

/-- Nodes print the same one after the other if and only if each of them does. -/
theorem renderAll_eq_iff {nodes nodes' : List Node} (matched : MatchedAll Arranged nodes nodes') :
    Node.renderAll nodes' = Node.renderAll nodes ↔ nodes'.map Node.render = nodes.map Node.render := by
  induction nodes generalizing nodes' with
  | nil =>
    cases nodes' with
    | nil => simp
    | cons n' rest' => exact matched.elim
  | cons n rest ih =>
    cases nodes' with
    | nil => exact matched.elim
    | cons n' rest' =>
      rw [Node.renderAll, Node.renderAll, List.map_cons, List.map_cons, List.cons.injEq, ← ih matched.2]
      constructor
      · intro same
        exact Text.append_inj same (length_render n n' matched.1)
      · rintro ⟨first, later⟩
        rw [first, later]

/-- An element prints the same if and only if its opening tag and, where they are shown, its contents
do. -/
theorem render_element_iff (arranged : Arranged e e') {children children' : List Node}
    (matched : MatchedAll Arranged children children') :
    (Node.element e' children').render = (Node.element e children).render ↔
      e'.openTag = e.openTag ∧
        (e.isLeaf = false → children'.map Node.render = children.map Node.render) := by
  have opening := length_openTag arranged
  have contents := length_renderAll children children' matched
  rw [← renderAll_eq_iff matched, Node.render, Node.render, isLeaf_of_arranged arranged, arranged.tag]
  cases e.isLeaf with
  | true =>
    constructor
    · intro same
      exact ⟨(Text.append_inj same opening).1, nofun⟩
    · rintro ⟨same, -⟩
      rw [same]
      rfl
  | false =>
    constructor
    · intro same
      simp only [Bool.false_eq_true, if_false, String.append_assoc] at same
      obtain ⟨first, rest⟩ := Text.append_inj same opening
      have later := (Text.append_inj rest rfl).2
      exact ⟨first, fun _ => (Text.append_inj later contents).1⟩
    · rintro ⟨first, later⟩
      rw [first, later rfl]

end Print

section Attributes

/-- The names of attributes can be read off their print. -/
theorem names_of_printed {attrs attrs' : List Attr} (plain : ∀ a ∈ attrs, '=' ∉ a.name.toList)
    (plain' : ∀ a ∈ attrs', '=' ∉ a.name.toList)
    (same : attrs'.flatMap (·.render.toList) = attrs.flatMap (·.render.toList)) :
    attrs'.map (·.name) = attrs.map (·.name) := by
  induction attrs generalizing attrs' with
  | nil =>
    cases attrs' with
    | nil => rfl
    | cons a' rest' => simp [Attr.toList_render] at same
  | cons a rest ih =>
    cases attrs' with
    | nil => simp [Attr.toList_render] at same
    | cons a' rest' =>
      simp only [List.flatMap_cons, Attr.toList_render a', Attr.toList_render a, List.cons_append,
        List.append_assoc, List.nil_append, List.cons.injEq, true_and] at same
      obtain ⟨name, after⟩ := append_cons_cancel (plain' a' (List.mem_cons_self ..))
        (plain a (List.mem_cons_self ..)) same
      obtain ⟨-, later⟩ := append_cons_cancel a'.quote_not_mem_printed a.quote_not_mem_printed
        (List.cons.inj after).2
      have tail := ih (fun b m => plain b (List.mem_cons_of_mem _ m))
        (fun b m => plain' b (List.mem_cons_of_mem _ m)) later
      rw [List.map_cons, List.map_cons, tail, String.toList_inj.mp name]

/-- Attributes of distinct names are in the same order once their names are. -/
theorem eq_of_names {attrs attrs' : List Attr} (perm : attrs'.Perm attrs)
    (distinct : (attrs.map (·.name)).Nodup) (names : attrs'.map (·.name) = attrs.map (·.name)) :
    attrs' = attrs := by
  induction attrs generalizing attrs' with
  | nil => exact perm.eq_nil
  | cons a rest ih =>
    cases attrs' with
    | nil => cases names
    | cons a' rest' =>
      rw [List.map_cons, List.map_cons, List.cons.injEq] at names
      have member : a' ∈ a :: rest := perm.mem_iff.mp (List.mem_cons_self ..)
      obtain rfl : a' = a := List.inj_on_of_nodup_map distinct member (List.mem_cons_self ..) names.1
      rw [List.map_cons, List.nodup_cons] at distinct
      rw [ih perm.cons_inv distinct.2 names.2]

/-- The opening tag of an element that a preview is past. -/
theorem openTag_left_of_steady {values : Values} {e : Element} (distinct : (e.attrs.map (·.name)).Nodup)
    (steady : binds e = true → Steady values e) : (left values e).openTag = e.openTag := by
  have attrs : (left values e).attrs = e.attrs := by
    unfold left
    split
    · rename_i bound
      exact (settled_attrs_eq_iff distinct).mpr (steady bound)
    · rfl
  rw [Element.openTag, Element.openTag, attrs, left_tag]

theorem steady_of_openTag_left {values : Values} {e : Element} (distinct : (e.attrs.map (·.name)).Nodup)
    (plain : ∀ a ∈ e.attrs, '=' ∉ a.name.toList) (same : (left values e).openTag = e.openTag)
    (bound : binds e = true) : Steady values e := by
  rw [left, if_pos bound] at same
  have lists := congrArg String.toList same
  rw [toList_openTag, toList_openTag, show (settled values e).tag = e.tag from rfl] at lists
  have printed := List.append_cancel_left (List.cons.inj lists).2
  have plain' : ∀ a ∈ (settled values e).attrs, '=' ∉ a.name.toList := fun a member =>
    plain a ((settled_perm values e).mem_iff.mp member)
  apply (settled_attrs_eq_iff distinct).mp
  exact eq_of_names (settled_perm values e) distinct (names_of_printed plain plain' printed)

end Attributes

section Tree

variable (template : String) (values : Values)

mutual

def touchedOf : Node → List Element
  | .element e children =>
    (if binds e then [e] else []) ++
      match handling template values e with
      | .alone _ => []
      | .around _ _ => if e.isLeaf then [] else touched children
  | _ => []

/-- The elements that a preview writes to, of those that a printed tree shows. -/
def touched : List Node → List Element
  | [] => []
  | n :: rest =>
    touchedOf n ++
      match (renderNode template values n).1 with
      | .error _ => []
      | .ok _ => touched rest

end

mutual

theorem mem_touchedOf : (n : Node) → ∀ x ∈ touchedOf template values n, x ∈ elementsOf n ∧ binds x = true
  | .element e children => by
    have inside := mem_touched children
    intro x member
    rw [touchedOf] at member
    rw [elementsOf]
    rcases List.mem_append.mp member with own | below
    · split at own
      · rename_i bound
        obtain rfl := List.mem_singleton.mp own
        exact ⟨List.mem_cons_self .., bound⟩
      · cases own
    · split at below
      · cases below
      · split at below
        · cases below
        · obtain ⟨found, bound⟩ := inside x below
          exact ⟨List.mem_cons_of_mem _ found, bound⟩
  | .text _ => nofun
  | .comment _ => nofun

theorem mem_touched : (nodes : List Node) →
    ∀ x ∈ touched template values nodes, x ∈ elements nodes ∧ binds x = true
  | [] => nofun
  | n :: rest => by
    have first := mem_touchedOf n
    have later := mem_touched rest
    intro x member
    rw [touched] at member
    rw [elements]
    rcases List.mem_append.mp member with here | behind
    · exact ⟨List.mem_append_left _ (first x here).1, (first x here).2⟩
    · split at behind
      · cases behind
      · exact ⟨List.mem_append_right _ (later x behind).1, (later x behind).2⟩

end

/-- The opening tags of these elements are printed as they were. -/
def SameTags (elements : List Element) : Prop := ∀ e ∈ elements, (left values e).openTag = e.openTag

variable {values}

theorem sameTags_append {first rest : List Element} :
    SameTags values (first ++ rest) ↔ SameTags values first ∧ SameTags values rest :=
  List.forall_mem_append

theorem sameTags_own {e : Element} :
    SameTags values (if binds e then [e] else []) ↔ (left values e).openTag = e.openTag := by
  by_cases bound : binds e = true
  · simp [SameTags, bound]
  · simp [SameTags, left, bound]

mutual

theorem render_renderNode_iff : (n : Node) → Distinct (elementsOf n) →
    ((renderNode template values n).2.render = n.render ↔ SameTags values (touchedOf template values n))
  | .element e children, distinct => by
    have own := distinct e (by simp [elementsOf])
    have below : Distinct (elements children) := fun x member => distinct x (by simp [elementsOf, member])
    have arranged := arranged_left values e
    have inside := map_render_render_iff children below
    have matched :=
      matchedAll_render template arranged_refl (fun e _ => arranged_left values e) children below
    rw [renderNode_element template values own, touchedOf, sameTags_append, sameTags_own]
    cases handling template values e with
    | alone result =>
      rw [render_element_iff arranged (matchedAll_refl arranged_refl children)]
      simp [SameTags]
    | around opening closing =>
      rw [render_element_iff arranged matched, inside]
      cases e.isLeaf <;> simp [SameTags]
  | .text _, _ => iff_of_true rfl (by simp [touchedOf, SameTags])
  | .comment _, _ => iff_of_true rfl (by simp [touchedOf, SameTags])

/-- Each tree prints as before exactly if the opening tags that are written to do. -/
theorem map_render_render_iff : (nodes : List Node) → Distinct (elements nodes) →
    ((render template values nodes).2.map Node.render = nodes.map Node.render ↔
      SameTags values (touched template values nodes))
  | [], _ => by simp [render, touched, SameTags]
  | n :: rest, distinct => by
    have first := render_renderNode_iff n fun x member => distinct x (by simp [elements, member])
    have later := map_render_render_iff rest fun x member => distinct x (by simp [elements, member])
    rw [render_cons, touched, sameTags_append, ← first]
    cases (renderNode template values n).1 with
    | error reason => simp [SameTags]
    | ok html => simp [← later]

end

/-- Names that end before an equals sign, as all names that are read do. -/
def Readable (elements : List Element) : Prop := ∀ e ∈ elements, ∀ a ∈ e.attrs, '=' ∉ a.name.toList

/-- A preview leaves the printed tree as it found it if, wherever it came, the attributes that it took off
stood last in the order in which they come back; and, where names are readable, only then. -/
theorem preview_leaves_markup {roots : List Node} (distinct : Distinct (elements roots)) (template : String)
    (values : Values) :
    ((∀ e ∈ touched template values roots, Steady values e) →
        (render template values roots).2.map Node.render = roots.map Node.render) ∧
      (Readable (elements roots) →
        (render template values roots).2.map Node.render = roots.map Node.render →
          ∀ e ∈ touched template values roots, Steady values e) := by
  have printed := @map_render_render_iff template values roots distinct
  have among := mem_touched template values roots
  constructor
  · intro steady
    rw [printed]
    intro e member
    exact openTag_left_of_steady (distinct e (among e member).1) fun _ => steady e member
  · intro readable same e member
    obtain ⟨found, bound⟩ := among e member
    exact steady_of_openTag_left (distinct e found) (readable e found) (printed.mp same e member) bound

/-- A card without a theme and without a hint: the class is built again and the title goes, and both come
back to their places, since nothing else stands behind them. -/
theorem preview_leaves_markup_card :
    let card : Element := { tag := "p", attrs := [⟨"class", "card {{ theme }}"⟩, ⟨"title", "{{ hint }}"⟩] }
    let roots : List Node := [.element card [.text "Tea"]]
    Distinct (elements roots) ∧ (∀ e ∈ touched "card" [] roots, Steady [] e) ∧ Readable (elements roots) ∧
      (render "card" [] roots).2.map Node.render = roots.map Node.render := by
  intro card roots
  have distinct : Distinct (elements roots) := by simp [roots, card, Distinct, elements, elementsOf]
  have readable : Readable (elements roots) := by simp [roots, card, Readable, elements, elementsOf]
  have steady : ∀ e ∈ touched "card" [] roots, Steady [] e := by
    intro e member
    obtain rfl : e = card := by
      have found := (mem_touched "card" [] roots e member).1
      simpa [roots, elements, elementsOf] using found
    have fates : fated [] card card.attrs =
        [⟨⟨"class", "card {{ theme }}"⟩, .rebuilt ["card"]⟩, ⟨⟨"title", "{{ hint }}"⟩, .gone⟩] := by decide +kernel
    rw [Steady, moved, fates]
    decide
  exact ⟨distinct, steady, readable, (preview_leaves_markup distinct "card" []).1 steady⟩

/-- A link without an address, which comes back behind the title. -/
theorem preview_moves_attribute :
    let link : Element := { tag := "a", attrs := [⟨"href", "{{ href }}"⟩, ⟨"title", "x"⟩] }
    (link.attrs.map (·.name)).Nodup ∧
      (render "link" [] [.element link [.text "y"]]).2.map Node.render ≠
        [(Node.element link [.text "y"]).render] := by
  intro link
  have distinct : (link.attrs.map (·.name)).Nodup := by decide
  refine ⟨distinct, fun same => ?_⟩
  have printed := @map_render_render_iff "link" [] [.element link [.text "y"]]
    (by simpa [Distinct, elements, elementsOf] using distinct)
  have bound : binds link = true := by decide
  have tag : (left [] link).openTag = link.openTag :=
    printed.mp same link (by simp [touched, touchedOf, bound])
  have steady : Steady [] link := steady_of_openTag_left distinct (by decide) tag bound
  have fates : fated [] link link.attrs =
      [⟨⟨"href", "{{ href }}"⟩, .gone⟩, ⟨⟨"title", "x"⟩, .kept⟩] := by decide +kernel
  rw [Steady, moved, fates] at steady
  exact absurd steady (by decide)

end Tree

end Stencil.Preview
