import Stencil.Proofs.PreviewedTree
import Stencil.Proofs.Skeleton

/-! The skeleton of a preview. Values are written as text or between quotes, so what they say never becomes
markup; which keys have values decides which elements and attributes are written, and what the values are
does not, as long as each counts as set and has more than blanks, and the template compares with none. So
two previews with values for the same keys read as the same elements. -/
namespace Stencil.Preview

open Markup (Node Element Attr Outlines)
open Template (elements elementsOf)

/-- Every value counts as set and has more than blanks. -/
def Filled (values : Values) : Prop :=
  ∀ key v, values.get? key = some v → Text.allBlank v = false ∧ v ≠ "false"

/-- Values for the same keys. -/
structure Alike (values values' : Values) : Prop where
  keys : ∀ key, (values.get? key).isSome = (values'.get? key).isSome
  filled : Filled values
  filled' : Filled values'

/-- Whether a marker stands for one of several texts. -/
def isChoice (m : Marker) : Bool := m.options.any (2 ≤ ·.length)

def offersChoice (raw : String) : Bool := (Marker.parse raw).toOption.any fun parsed => parsed.2.any isChoice

theorem filled_of_forall {values : Values}
    (all : ∀ entry ∈ values, Text.allBlank entry.2 = false ∧ entry.2 ≠ "false") : Filled values := by
  intro key v found
  obtain ⟨entry, first, rfl⟩ := Option.map_eq_some_iff.mp found
  exact all entry (List.mem_of_find?_eq_some first)

theorem keys_of_perm {values values' : Values} (same : (values.map (·.1)).Perm (values'.map (·.1)))
    (key : String) : (values.get? key).isSome = (values'.get? key).isSome := by
  have known : ∀ vs : Values, (vs.get? key).isSome = true ↔ key ∈ vs.map (·.1) := by
    intro vs
    simp [Entries.get?]
  rw [Bool.eq_iff_iff, known, known, same.mem_iff]

theorem isSet_of_filled {values : Values} (filled : Filled values) (key : String) :
    isSet (values.get? key) = (values.get? key).isSome := by
  cases found : values.get? key with
  | none => rfl
  | some v =>
    obtain ⟨solid, other⟩ := filled key v found
    have nonempty : v ≠ "" := by
      rintro rfl
      cases solid
    simp [isSet, nonempty, other]

section Texts

variable {values values' : Values} (alike : Alike values values')

include alike

theorem Alike.isSet_eq (key : String) : isSet (values.get? key) = isSet (values'.get? key) := by
  rw [isSet_of_filled alike.filled, isSet_of_filled alike.filled', alike.keys]

/-- No test that fails for all values but blank ones tells the texts of a marker apart. -/
theorem Alike.markerText?_all {p : String → Bool} (strict : ∀ v, Text.allBlank v = false → p v = false)
    {m : Marker} (plain : isChoice m = false) :
    (markerText? values m).all p = (markerText? values' m).all p := by
  have keys := alike.keys m.key
  unfold markerText?
  split
  · cases here : values.get? m.key <;> cases there : values'.get? m.key
    · rfl
    · simp [here, there] at keys
    · simp [here, there] at keys
    · simp [strict _ (alike.filled _ _ here).1, strict _ (alike.filled' _ _ there).1]
  · rw [alike.isSet_eq]
  · rename_i options other known
    cases options with
    | nil => rfl
    | cons first rest =>
      cases rest with
      | nil => exact absurd rfl (other first)
      | cons second rest => simp [isChoice, known] at plain

theorem Alike.texts_all {p : String → Bool} (strict : ∀ v, Text.allBlank v = false → p v = false)
    (text : String) {markers : List Marker} (plain : markers.any isChoice = false) :
    (text :: markers.filterMap (markerText? values)).all p =
      (text :: markers.filterMap (markerText? values')).all p := by
  have split : ∀ (f : Marker → Option String) (m : Marker) (rest : List Marker),
      ((m :: rest).filterMap f).all p = ((f m).all p && (rest.filterMap f).all p) := by
    intro f m rest
    rw [List.filterMap_cons]
    cases f m <;> rfl
  rw [List.all_cons, List.all_cons]
  congr 1
  induction markers with
  | nil => rfl
  | cons m rest ih =>
    rw [List.any_cons, Bool.or_eq_false_iff] at plain
    rw [split, split, alike.markerText?_all strict plain.1, ih plain.2]

end Texts

namespace Fate

/-- What becomes of an attribute, whatever the text. -/
def shape : Fate → Fate
  | kept => kept
  | set _ => set ""
  | gone => gone
  | rebuilt _ => rebuilt []

variable {values values' : Values} (alike : Alike values values')

include alike

theorem shape_ofMarkers (name text : String) {markers : List Marker} (plain : markers.any isChoice = false) :
    (ofMarkers values name text markers).shape = (ofMarkers values' name text markers).shape := by
  have empty : (attributeText text markers values).isEmpty = (attributeText text markers values').isEmpty := by
    rw [attributeText, attributeText, Text.isEmpty_join, Text.isEmpty_join]
    refine alike.texts_all (fun v solid => ?_) text plain
    by_contra empty
    obtain rfl : v = "" := by simpa using empty
    cases solid
  have blank : Text.allBlank (attributeText text markers values) =
      Text.allBlank (attributeText text markers values') := by
    rw [attributeText, attributeText, Text.allBlank_join, Text.allBlank_join]
    exact alike.texts_all (fun v solid => solid) text plain
  have words : Text.words (attributeText text markers values) = [] ↔
      Text.words (attributeText text markers values') = [] := by
    rw [Text.words_eq_nil_iff, Text.words_eq_nil_iff, blank]
  unfold ofMarkers
  dsimp only
  split
  · rfl
  · split
    · cases here : Text.words (attributeText text markers values) <;>
        cases there : Text.words (attributeText text markers values') <;> simp [here, there] at words <;> rfl
    · rw [empty]
      split <;> rfl

/-- The values do not decide what becomes of an attribute. -/
theorem ofRaw_alike (name : String) {raw : String} (plain : offersChoice raw = false) :
    (∃ reason, ofRaw values name raw = .error reason ∧ ofRaw values' name raw = .error reason) ∨
      ∃ f f', ofRaw values name raw = .ok f ∧ ofRaw values' name raw = .ok f' ∧ f.shape = f'.shape := by
  unfold ofRaw
  unfold offersChoice at plain
  rcases parsed : Marker.parse raw with reason | ⟨text, markers⟩ <;> rw [parsed] at plain
  · exact .inl ⟨_, rfl, rfl⟩
  · exact .inr ⟨_, _, rfl, rfl, shape_ofMarkers alike name text plain⟩

end Fate

section Element

variable {values values' : Values} {e : Element}

def Fated.shape (x : Fated) : Fated := ⟨x.attr, x.fate.shape⟩

theorem Fated.bare_shown (x : Fated) : x.shown.map Attr.bare = x.shape.shown.map Attr.bare := by
  rcases x with ⟨a, - | value | - | classes⟩ <;> rfl

theorem Fated.bare_anew (x : Fated) : x.anew.map Attr.bare = x.shape.anew.map Attr.bare := by
  rcases x with ⟨a, - | value | - | classes⟩ <;> rfl

/-- The names under which an element is written depend on the shapes only. -/
theorem bare_written (done : List Fated) (todo : List Attr) :
    (written e done todo).bare = (written e (done.map Fated.shape) todo).bare := by
  have shown : (done.filterMap Fated.shown).map Attr.bare =
      ((done.map Fated.shape).filterMap Fated.shown).map Attr.bare := by
    rw [List.map_filterMap, List.map_filterMap, List.filterMap_map]
    exact List.filterMap_congr fun x _ => x.bare_shown
  have anew : (done.filterMap Fated.anew).map Attr.bare =
      ((done.map Fated.shape).filterMap Fated.anew).map Attr.bare := by
    rw [List.map_filterMap, List.map_filterMap, List.filterMap_map]
    exact List.filterMap_congr fun x _ => x.bare_anew
  simp only [written, Element.bare, List.map_append, shown, anew]

section Alike

variable (alike : Alike values values')

include alike

theorem shape_fated {attrs : List Attr} (plain : ∀ a ∈ attrs, offersChoice (e.authored a.name) = false) :
    (fated values e attrs).map Fated.shape = (fated values' e attrs).map Fated.shape := by
  induction attrs with
  | nil => rfl
  | cons a rest ih =>
    have later := ih fun b member => plain b (List.mem_cons_of_mem a member)
    rw [fated, fated]
    rcases Fate.ofRaw_alike alike a.name (plain a (List.mem_cons_self ..)) with
      ⟨reason, first, second⟩ | ⟨f, f', first, second, same⟩
    · rw [first, second]
    · simp [first, second, Fated.shape, same, later]

theorem outcome_alike (template : String) {attrs : List Attr}
    (plain : ∀ a ∈ attrs, offersChoice (e.authored a.name) = false) :
    outcome template values e attrs = outcome template values' e attrs := by
  induction attrs with
  | nil => rfl
  | cons a rest ih =>
    rw [outcome, outcome]
    rcases Fate.ofRaw_alike alike a.name (plain a (List.mem_cons_self ..)) with
      ⟨reason, first, second⟩ | ⟨f, f', first, second, -⟩ <;> rw [first, second]
    exact ih fun b member => plain b (List.mem_cons_of_mem a member)

/-- The element is written with the same tag and the same names. -/
theorem bare_presented (plain : ∀ a ∈ e.attrs, offersChoice (e.authored a.name) = false) :
    (presented values e).bare = (presented values' e).bare := by
  have shapes := shape_fated alike plain
  have reached : (fated values e e.attrs).length = (fated values' e e.attrs).length := by
    simpa using congrArg List.length shapes
  rw [presented, presented, bare_written, shapes, unreached, reached, ← unreached, ← bare_written]

end Alike

theorem names_shown (done : List Fated) :
    (done.filterMap Fated.shown).map (·.name) = (staying done).map (·.attr.name) := by
  induction done with
  | nil => rfl
  | cons x rest ih =>
    rcases x with ⟨a, - | value | - | classes⟩ <;>
      simpa [List.filterMap_cons, Fated.shown, staying, Fate.stays, Fate.isGone, Fate.isRebuilt] using ih

theorem names_anew (done : List Fated) :
    (done.filterMap Fated.anew).map (·.name) = (rebuilt done).map (·.attr.name) := by
  induction done with
  | nil => rfl
  | cons x rest ih =>
    rcases x with ⟨a, - | value | - | classes⟩ <;>
      simpa [List.filterMap_cons, Fated.anew, rebuilt, Fate.isRebuilt] using ih

/-- What is written of an element are attributes that it has, in the order in which they are left but for
those that are not written. -/
theorem names_presented (values : Values) (e : Element) :
    (presented values e).attrs.map (·.name) <+: (settled values e).attrs.map (·.name) := by
  refine ⟨((gone (fated values e e.attrs)).reverse.map (·.attr.name)), ?_⟩
  simp [presented, written, settled, placed, moved, movers, names_shown, names_anew, Function.comp_def]

theorem legible_presented (values : Values) (legible : e.Legible) : (presented values e).Legible where
  nonempty := legible.nonempty
  tag := legible.tag
  attrs := by
    intro a member
    have listed : a.name ∈ (presented values e).attrs.map (·.name) := List.mem_map.mpr ⟨a, member, rfl⟩
    have own := ((settled_perm values e).map (·.name)).mem_iff.mp ((names_presented values e).subset listed)
    obtain ⟨b, inside, same⟩ := List.mem_map.mp own
    obtain ⟨nonempty, name⟩ := legible.attrs b inside
    rw [same] at nonempty name
    exact ⟨nonempty, name⟩
  distinct := by
    have whole := ((settled_perm values e).map (·.name)).nodup_iff.mpr legible.distinct
    exact whole.sublist (names_presented values e).sublist
  void := legible.void
  plain := legible.plain

end Element

def compares (e : Element) : Bool :=
  e.tag == conditionTag && (Condition.parse? (e.authored "key")).any (·.comparison.isSome)

/-- An element that is read as it is printed, and that the values change only by being there. -/
structure Plain (e : Element) : Prop extends e.Legible where
  choices : ∀ a ∈ e.attrs, offersChoice (e.authored a.name) = false
  comparisons : compares e = false

theorem angle_not_mem_escapeText (s : String) : '<' ∉ (escapeText s).toList := by
  intro member
  obtain ⟨c, -, found⟩ : ∃ c ∈ s.toList, _ := by simpa [escapeText, Text.mapChars] using member
  split at found
  · simp at found
  · split at found
    · simp at found
    · split at found
      · simp at found
      · rename_i other _
        exact other (by simpa [eq_comm] using found)

/-- Two ways to write an element that read as the same elements once the contents do. -/
inductive HandledAlike : Handling → Handling → Prop where
  | failed {reason reason'} : HandledAlike (.alone (.error reason)) (.alone (.error reason'))
  | alone {html html' nodes} : Outlines html nodes → Outlines html' nodes →
      HandledAlike (.alone (.ok html)) (.alone (.ok html'))
  | around {opening closing opening' closing'} :
      (∀ contents contents' children, Outlines contents children → Outlines contents' children →
        ∃ nodes, Outlines (opening ++ contents ++ closing) nodes ∧
          Outlines (opening' ++ contents' ++ closing') nodes) →
      HandledAlike (.around opening closing) (.around opening' closing')

section Walk

variable {values values' : Values} (alike : Alike values values') (template : String)

include alike

/-- The tags that an element is written with are read alike. -/
theorem Alike.tags {e : Element} (plain : Plain e) :
    let tags (vs : Values) : Handling :=
      if e.isLeaf then .alone (.ok (openTag (presented vs e)))
      else .around (openTag (presented vs e)) ("</" ++ e.tag ++ ">")
    HandledAlike (tags values) (tags values') := by
  have names := bare_presented alike plain.choices
  have first := legible_presented values plain.toLegible
  have second := legible_presented values' plain.toLegible
  have leaf : e.isLeaf = e.selfClosing := by
    rw [← e.isLeaf_bare, Node.isLeaf_eq plain.canonical_bare]
    rfl
  have tag : ∀ vs, openTag (presented vs e) =
      (presented vs e).openTag ++ if e.selfClosing then "/>" else ">" := fun vs => rfl
  dsimp only
  rw [leaf, tag, tag]
  cases closed : e.selfClosing with
  | true =>
    have here := Outlines.leaf first closed
    have there := Outlines.leaf second closed
    rw [← names] at there
    exact .alone here there
  | false =>
    refine .around fun contents contents' children inside inside' => ?_
    have here := Outlines.parent first closed inside
    have there := Outlines.parent second closed inside'
    rw [← names] at there
    simp only [String.append_assoc] at here there ⊢
    exact ⟨_, here, there⟩

theorem Alike.handling {e : Element} (plain : Plain e) :
    HandledAlike (handling template values e) (handling template values' e) := by
  have bare : HandledAlike (.around "" "") (.around "" "") :=
    .around fun contents contents' children first second => ⟨children, by simpa using ⟨first, second⟩⟩
  unfold Preview.handling
  split
  · have keys := alike.keys (Text.trim (e.authored "key"))
    cases here : values.get? (Text.trim (e.authored "key")) <;>
      cases there : values'.get? (Text.trim (e.authored "key"))
    · exact bare
    · simp [here, there] at keys
    · simp [here, there] at keys
    · exact .alone (.text (angle_not_mem_escapeText _)) (.text (angle_not_mem_escapeText _))
  · split
    · rename_i condition
      cases parsed : Condition.parse? (e.authored "key") with
      | none => exact .failed
      | some c =>
        have unset : c.comparison = none := by
          simpa [compares, condition, parsed] using plain.comparisons
        have same : holds c values = holds c values' := by
          simp only [holds, unset]
          exact alike.isSet_eq c.key
        dsimp only
        rw [same]
        split
        · exact bare
        · exact .alone (.text (by simp)) (.text (by simp))
    · rw [outcome_alike alike template plain.choices]
      cases outcome template values' e e.attrs with
      | error reason => exact .failed
      | ok => exact alike.tags plain

end Walk

mutual

/-- What two previews make of a node reads as the same elements. -/
theorem Alike.outlines_renderNode {values values' : Values} (alike : Alike values values')
    (template : String) : (n : Node) → (∀ e ∈ elementsOf n, Plain e) →
    '<' ∉ n.textContent.toList → {html : String} → (renderNode template values n).1 = .ok html →
    ∃ html' nodes, (renderNode template values' n).1 = .ok html' ∧ Outlines html nodes ∧ Outlines html' nodes
  | .text t, _, solid, html, done => by
    cases done
    exact ⟨t, [], rfl, .text solid, .text solid⟩
  | .comment c, _, _, html, done => by
    cases done
    exact ⟨"", [], rfl, .text (by simp), .text (by simp)⟩
  | .element e children, plain, solid, html, done => by
    have own := plain e (by simp [elementsOf])
    have below := alike.outlines_render template children
      fun x member => plain x (by simp [elementsOf, member])
    have handled := alike.handling template own
    rw [renderNode_element template values own.distinct] at done
    rw [renderNode_element template values' own.distinct]
    generalize Preview.handling template values e = here at done handled
    generalize Preview.handling template values' e = there at handled
    cases handled with
    | failed => cases done
    | alone first second =>
      cases done
      exact ⟨_, _, rfl, first, second⟩
    | around both =>
      cases inside : (render template values children).1 with
      | error reason =>
        rw [inside] at done
        cases done
      | ok contents =>
        rw [inside] at done
        cases done
        obtain ⟨contents', nodes, inside', first, second⟩ := below solid inside
        obtain ⟨outer, one, other⟩ := both contents contents' nodes first second
        exact ⟨_, outer, by rw [inside']; rfl, one, other⟩

theorem Alike.outlines_render {values values' : Values} (alike : Alike values values')
    (template : String) : (nodes : List Node) → (∀ e ∈ elements nodes, Plain e) →
    '<' ∉ (Node.textContentAll nodes).toList → {html : String} →
    (render template values nodes).1 = .ok html →
    ∃ html' outline, (render template values' nodes).1 = .ok html' ∧ Outlines html outline ∧
      Outlines html' outline
  | [], _, _, html, done => by
    cases done
    exact ⟨"", [], rfl, .text (by simp), .text (by simp)⟩
  | n :: rest, plain, solid, html, done => by
    have apart : '<' ∉ n.textContent.toList ∧ '<' ∉ (Node.textContentAll rest).toList := by
      simpa [Node.textContentAll, not_or] using solid
    rw [render_cons] at done ⊢
    cases here : (renderNode template values n).1 with
    | error reason =>
      rw [here] at done
      cases done
    | ok front =>
      rw [here] at done
      cases there : (render template values rest).1 with
      | error reason =>
        rw [there] at done
        cases done
      | ok more =>
        rw [there] at done
        cases done
        obtain ⟨front', nodes, here', first, second⟩ := alike.outlines_renderNode template n
          (fun e member => plain e (by simp [elements, member])) apart.1 here
        obtain ⟨more', others, there', third, fourth⟩ := alike.outlines_render template rest
          (fun e member => plain e (by simp [elements, member])) apart.2 there
        refine ⟨front' ++ more', nodes ++ others, ?_, first.append third, second.append fourth⟩
        rw [here', there']
        rfl

end

/-- Values cannot bring elements or attributes into a preview. If the elements are read as they are
printed, offer no choices and compare no keys, and no text has an angle, then with other values for the
same keys the preview is shown as well, both are read, and what is read has the same tags, the same
nesting and the same attributes in the same order. -/
theorem preview_skeleton (template : String) {values values' : Values} (alike : Alike values values')
    {roots : List Node} (plain : ∀ e ∈ elements roots, Plain e)
    (solid : '<' ∉ (Node.textContentAll roots).toList) {html : String}
    (shown : (render template values roots).1 = .ok html) :
    ∃ html' read read', (render template values' roots).1 = .ok html' ∧ Markup.parse html = .ok read ∧
      Markup.parse html' = .ok read' ∧ Node.skeleton read = Node.skeleton read' := by
  obtain ⟨html', nodes, shown', first, second⟩ := alike.outlines_render template roots plain solid shown
  obtain ⟨read, parsed, outline⟩ := first.exists_parse
  obtain ⟨read', parsed', outline'⟩ := second.exists_parse
  exact ⟨html', read, read', shown', parsed, parsed', outline.trans outline'.symm⟩

/-- Values that would close their quotes, their element and open another one. -/
theorem preview_skeleton_card :
    let name : Node := .element { tag := variableTag, attrs := [⟨"key", "name"⟩] } [.text "you"]
    let roots : List Node :=
      [.element
        { tag := "p", attrs := [⟨"class", "a \x7b\x7b kind? \x7d\x7d"⟩, ⟨"title", "\x7b\x7b hint \x7d\x7d"⟩] }
        [.element { tag := conditionTag, attrs := [⟨"key", "kind"⟩] } [name],
          .element { tag := "br", selfClosing := true } []]]
    let values : Values := [("kind", "b"), ("hint", "x"), ("name", "me")]
    let values' : Values := [("name", "</p><script>"), ("kind", "b\"><i> c"), ("hint", "\" onclick=\"y")]
    (render "card" values roots).1 = .ok "<p title=\"x\" class=\"a b\">me<br/></p>" ∧
      ∃ html' read read', (render "card" values' roots).1 = .ok html' ∧
        Markup.parse "<p title=\"x\" class=\"a b\">me<br/></p>" = .ok read ∧
        Markup.parse html' = .ok read' ∧ Node.skeleton read = Node.skeleton read' := by
  intro name roots values values'
  have alike : Alike values values' := by
    exact ⟨keys_of_perm (by decide), filled_of_forall (by decide), filled_of_forall (by decide)⟩
  have plain : ∀ e ∈ elements roots, Plain e := by
    have canonical : ∀ e ∈ elements roots, e.Canonical := by decide +kernel
    have checked : ∀ e ∈ elements roots, Markup.Event.isRawText e.tag = false ∧
        (∀ a ∈ e.attrs, offersChoice (e.authored a.name) = false) ∧ compares e = false := by
      decide +kernel
    intro e member
    obtain ⟨raw, choices, comparisons⟩ := checked e member
    exact ⟨⟨(canonical e member).named, (canonical e member).void, raw⟩, choices, comparisons⟩
  have shown : (render "card" values roots).1 = .ok "<p title=\"x\" class=\"a b\">me<br/></p>" :=
    ok_of_toOption (by decide +kernel)
  exact ⟨shown, preview_skeleton "card" alike plain (by decide) shown⟩

end Stencil.Preview
