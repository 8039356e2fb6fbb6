import Stencil.Proofs.MatchedAccess
import Stencil.Proofs.ParsedElements

/-! The order in which an author writes the attributes of an element. No format shows it: two templates
whose markup differs in nothing else compile to the same files, or fail both. Only what stands inside a
variable is written out as it was authored, so there the order counts. -/
namespace Stencil

open Markup (Node Element Attr)

namespace Markup

/-- The same element but for the order of its attributes. -/
structure Shuffled (e e' : Element) : Prop where
  tag : e.tag = e'.tag
  attrs : e.attrs.Perm e'.attrs
  selfClosing : e.selfClosing = e'.selfClosing
  pristine : e.pristine = e'.pristine

/-- Among attributes of distinct names, a value is found wherever it stands. -/
theorem Attr.find?_eq_some_iff {attrs : List Attr} (distinct : (attrs.map (·.name)).Nodup)
    {name value : String} : find? attrs name = some value ↔ ⟨name, value⟩ ∈ attrs := by
  induction attrs with
  | nil => simp [find?]
  | cons a rest ih =>
    simp only [List.map_cons, List.nodup_cons] at distinct
    by_cases same : a.name = name
    · subst same
      have absent : ⟨a.name, value⟩ ∉ rest := fun member =>
        distinct.1 (List.mem_map.mpr ⟨_, member, rfl⟩)
      constructor
      · intro found
        have own : a.value = value := by simpa [find?] using found
        rw [← own]
        exact List.mem_cons_self ..
      · intro member
        have own : value = a.value :=
          congrArg Attr.value ((List.mem_cons.mp member).resolve_right absent)
        simp [find?, own]
    · have other : ⟨name, value⟩ ≠ a := fun equal => same (by rw [← equal])
      have later := ih distinct.2
      simp only [find?] at later
      simpa [find?, same, other] using later

theorem Attr.find?_eq_of_perm {attrs attrs' : List Attr} (perm : attrs.Perm attrs')
    (distinct : (attrs.map (·.name)).Nodup) (name : String) : find? attrs name = find? attrs' name := by
  have distinct' : (attrs'.map (·.name)).Nodup := (perm.map _).nodup_iff.mp distinct
  apply Option.ext
  intro value
  rw [find?_eq_some_iff distinct, find?_eq_some_iff distinct']
  exact perm.mem_iff

namespace Shuffled

variable {e e' : Element}

theorem get? (shuffled : Shuffled e e') (distinct : (e.attrs.map (·.name)).Nodup) (name : String) :
    e.get? name = e'.get? name :=
  Attr.find?_eq_of_perm shuffled.attrs distinct name

theorem authored (shuffled : Shuffled e e') (distinct : (e.attrs.map (·.name)).Nodup) (name : String) :
    e.authored name = e'.authored name := by
  simp only [Element.authored, Element.pristine?, shuffled.pristine, shuffled.get? distinct]

theorem isLeaf (shuffled : Shuffled e e') : e.isLeaf = e'.isLeaf := by
  simp only [Element.isLeaf, shuffled.selfClosing, shuffled.tag]

end Shuffled

end Markup

open Markup (Shuffled)

namespace Template

mutual

/-- The same tree but for the order of attributes; what stands inside a variable is the same. -/
def Reordered : Node → Node → Prop
  | .element e children, .element e' children' =>
    Shuffled e e' ∧
      ((e.tag = variableTag ∧ children = children') ∨
        (e.tag ≠ variableTag ∧ ReorderedAll children children'))
  | .text t, .text t' => t = t'
  | .comment c, .comment c' => c = c'
  | _, _ => False

def ReorderedAll : List Node → List Node → Prop
  | [], [] => True
  | n :: rest, n' :: rest' => Reordered n n' ∧ ReorderedAll rest rest'
  | _, _ => False

end

/-- Every element has attributes of distinct names. -/
def Distinct (elements : List Element) : Prop := ∀ e ∈ elements, (e.attrs.map (·.name)).Nodup

theorem boundKey?_eq_of_shuffled {e e' : Element} (shuffled : Shuffled e e')
    (distinct : (e.attrs.map (·.name)).Nodup) : boundKey? e = boundKey? e' := by
  simp only [boundKey?, shuffled.tag, shuffled.authored distinct]

mutual

theorem boundKeysOf_eq_of_reordered : (n n' : Node) → Reordered n n' → Distinct (elementsOf n) →
    boundKeysOf n = boundKeysOf n'
  | .element e children, .element e' children', ⟨shuffled, inside⟩, distinct => by
    have own := boundKey?_eq_of_shuffled shuffled (distinct e (by simp [elementsOf]))
    have below : Distinct (elements children) := fun x member => distinct x (by simp [elementsOf, member])
    rw [boundKeysOf, boundKeysOf, own]
    rcases inside with ⟨-, rfl⟩ | ⟨-, all⟩
    · rfl
    · rw [boundKeys_eq_of_reordered children children' all below]
  | .text _, .text _, _, _ => rfl
  | .comment _, .comment _, _, _ => rfl

theorem boundKeys_eq_of_reordered : (nodes nodes' : List Node) → ReorderedAll nodes nodes' →
    Distinct (elements nodes) → boundKeys nodes = boundKeys nodes'
  | [], [], _, _ => rfl
  | n :: rest, n' :: rest', ⟨here, later⟩, distinct => by
    rw [boundKeys, boundKeys,
      boundKeysOf_eq_of_reordered n n' here fun x member => distinct x (by simp [elements, member]),
      boundKeys_eq_of_reordered rest rest' later fun x member => distinct x (by simp [elements, member])]

end

theorem counts_eq_of_reordered {n n' : Node} (reordered : Reordered n n') :
    (!n.isBlank && !n.isComment) = (!n'.isBlank && !n'.isComment) := by
  cases n <;> cases n' <;> simp_all [Reordered, Node.isBlank, Node.isComment]

theorem hasMultipleRoots_eq_of_reordered {roots roots' : List Node}
    (reordered : ReorderedAll roots roots') : hasMultipleRoots roots = hasMultipleRoots roots' := by
  have same : (roots.filter fun n => !n.isBlank && !n.isComment).length =
      (roots'.filter fun n => !n.isBlank && !n.isComment).length := by
    induction roots generalizing roots' with
    | nil =>
      cases roots' with
      | nil => rfl
      | cons n' rest' => exact reordered.elim
    | cons n rest ih =>
      cases roots' with
      | nil => exact reordered.elim
      | cons n' rest' =>
        obtain ⟨here, later⟩ := reordered
        have counts := counts_eq_of_reordered here
        have rest := ih later
        rw [List.filter_cons, List.filter_cons, counts]
        split <;> simp [rest]
  rw [hasMultipleRoots, hasMultipleRoots, same]

end Template

theorem Reported.toOption_bind {ε α β : Type} (x : Reported ε α) (f : α → Reported ε β) :
    (x >>= f).outcome.toOption = x.outcome.toOption.bind fun a => (f a).outcome.toOption := by
  change (Reported.bind x f).outcome.toOption = _
  unfold Reported.bind
  split <;> rename_i ended <;> rw [ended] <;> rfl

namespace Walk

variable {τ α β : Type} {c : Context τ}

/-- Two parts of a walk that from any state fail both, or end with the same result and in the same
state. -/
def Agree (x y : WalkM τ α) : Prop := ∀ s, (x s).outcome.toOption = (y s).outcome.toOption

theorem agree_refl (x : WalkM τ α) : Agree x x := fun _ => rfl

theorem agree_bind {x y : WalkM τ α} {f g : α → WalkM τ β} (first : Agree x y)
    (rest : ∀ a, Agree (f a) (g a)) : Agree (x >>= f) (y >>= g) := by
  intro s
  change (x s >>= fun p => f p.1 p.2).outcome.toOption = (y s >>= fun p => g p.1 p.2).outcome.toOption
  rw [Reported.toOption_bind, Reported.toOption_bind, first s]
  congr
  funext p
  exact rest p.1 p.2

variable {e e' : Element}

theorem matches_of_shuffled (shuffled : Shuffled e e') (distinct : (e.attrs.map (·.name)).Nodup) :
    Markup.Access.Matches (fun x y => x = e ∧ y = e') List.Perm Markup.Access.ofElement
      Markup.Access.ofElement where
  attributeNames := by
    rintro _ _ ⟨rfl, rfl⟩
    exact ⟨.ok (shuffled.attrs.map _), rfl, rfl⟩
  read name := by
    rintro _ _ ⟨rfl, rfl⟩
    rw [Attribute.read_ofElement, Attribute.read_ofElement]
    exact ⟨.ok (shuffled.authored distinct name), rfl, rfl⟩

theorem agree_attributes (shuffled : Shuffled e e') (distinct : (e.attrs.map (·.name)).Nodup) :
    Agree (attributes c e) (attributes c e') := by
  intro s
  have alike := Attribute.alike_compileAll (Text.toLowerAscii e.tag) (matches_of_shuffled shuffled distinct)
    fun _ _ permuted => permuted
  obtain ⟨ended, kept⟩ := alike { node := e, registry := c.target.registry s }
    { node := e', registry := c.target.registry s } ⟨⟨rfl, rfl⟩, rfl, rfl⟩
  unfold attributes Attribute.compile
  rw [← shuffled.tag]
  rcases here : Attribute.compileAll Markup.Access.ofElement (Text.toLowerAscii e.tag)
    { node := e, registry := c.target.registry s } with ⟨left, u⟩
  rcases there : Attribute.compileAll Markup.Access.ofElement (Text.toLowerAscii e.tag)
    { node := e', registry := c.target.registry s } with ⟨right, v⟩
  rw [here, there] at ended kept
  dsimp only at ended kept
  rcases ended with same | reason
  · dsimp only
    rw [same, kept.registry]
  · rfl

theorem agree_openElement (shuffled : Shuffled e e') (distinct : (e.attrs.map (·.name)).Nodup) :
    Agree (openElement c e) (openElement c e') := by
  apply agree_bind (agree_attributes shuffled distinct)
  intro attributes
  rw [candidate, candidate, shuffled.tag, shuffled.authored distinct, shuffled.isLeaf]
  exact agree_refl _

theorem agree_requiredKey (shuffled : Shuffled e e') (distinct : (e.attrs.map (·.name)).Nodup) :
    Agree (requiredKey c e) (requiredKey c e') := by
  unfold requiredKey
  rw [shuffled.tag, shuffled.authored distinct]
  exact agree_refl _

theorem agree_addVariable (shuffled : Shuffled e e') (distinct : (e.attrs.map (·.name)).Nodup)
    (children : List Node) : Agree (addVariable c e children) (addVariable c e' children) :=
  agree_bind (agree_requiredKey shuffled distinct) fun _ => agree_refl _

theorem agree_openCondition (shuffled : Shuffled e e') (distinct : (e.attrs.map (·.name)).Nodup) :
    Agree (openCondition c e) (openCondition c e') :=
  agree_bind (agree_requiredKey shuffled distinct) fun _ => agree_refl _

mutual

theorem agree_walkNode : (n n' : Node) → Template.Reordered n n' →
    Template.Distinct (Template.elementsOf n) → Agree (walkNode c n) (walkNode c n')
  | .element e children, .element e' children', ⟨shuffled, inside⟩, distinct => by
    have own := distinct e (by simp [Template.elementsOf])
    have below : Template.Distinct (Template.elements children) := fun x member =>
      distinct x (by simp [Template.elementsOf, member])
    unfold walkNode
    rw [← shuffled.tag, ← shuffled.isLeaf]
    rcases inside with ⟨named, rfl⟩ | ⟨other, all⟩
    · have tagged : (e.tag == variableTag) = true := by simpa using named
      rw [if_pos tagged, if_pos tagged]
      exact agree_addVariable shuffled own children
    · have tagged : ¬(e.tag == variableTag) = true := by simpa using other
      rw [if_neg tagged, if_neg tagged]
      have walked := agree_walk children children' all below
      split
      · apply agree_bind (agree_openCondition shuffled own)
        intro _
        apply agree_bind walked
        intro _
        exact agree_refl _
      · apply agree_bind (agree_openElement shuffled own)
        intro name
        split
        · exact agree_bind walked fun _ => agree_refl _
        · exact agree_refl _
  | .text _, .text _, same, _ => by
    rw [show _ = _ from same]
    exact agree_refl _
  | .comment _, .comment _, _, _ => agree_refl _

/-- Walks over markup that differs only in the order of attributes agree. -/
theorem agree_walk : (nodes nodes' : List Node) → Template.ReorderedAll nodes nodes' →
    Template.Distinct (Template.elements nodes) → Agree (walk c nodes) (walk c nodes')
  | [], [], _, _ => agree_refl _
  | n :: rest, n' :: rest', ⟨here, later⟩, distinct => by
    unfold walk
    apply agree_bind
    · exact agree_walkNode n n' here fun x member => distinct x (by simp [Template.elements, member])
    · intro _
      exact agree_walk rest rest' later fun x member => distinct x (by simp [Template.elements, member])

end

end Walk

namespace Template

theorem compileTo_of_reordered {t t' : Template} (sameId : t.id = t'.id) (sameCss : t.css = t'.css)
    {roots roots' : List Node} (reordered : ReorderedAll roots roots')
    (distinct : Distinct (elements roots)) (options : Option ComponentOptions) (rules : List Style.Rule)
    (format : Format) :
    (t.compileTo options roots rules format).outcome.toOption =
      (t'.compileTo options roots' rules format).outcome.toOption := by
  have keys := boundKeys_eq_of_reordered roots roots' reordered distinct
  have begin : t.start options roots format = t'.start options roots' format := by
    simp only [start, sameId, keys]
  have known : t.context rules = t'.context rules := by simp only [context, sameId]
  rw [compileTo_eq, compileTo_eq, begin, known, sameCss, hasMultipleRoots_eq_of_reordered reordered]
  rw [Reported.toOption_bind, Reported.toOption_bind, Walk.agree_walk roots roots' reordered distinct]

theorem compileEach_of_reordered {t t' : Template} (sameId : t.id = t'.id) (sameCss : t.css = t'.css)
    {roots roots' : List Node} (reordered : ReorderedAll roots roots')
    (distinct : Distinct (elements roots)) (options : Option ComponentOptions) (rules : List Style.Rule)
    (formats : List Format) :
    (t.compileEach options roots rules formats).outcome.toOption =
      (t'.compileEach options roots' rules formats).outcome.toOption := by
  induction formats with
  | nil => rfl
  | cons format rest ih =>
    unfold compileEach
    rw [Reported.toOption_bind, Reported.toOption_bind,
      compileTo_of_reordered sameId sameCss reordered distinct options rules format]
    congr
    funext files
    rw [Reported.toOption_bind, Reported.toOption_bind, ih]

/-- Templates with one id and one stylesheet whose markup differs only in the order of attributes, what
stands inside variables apart, compile to the same files in every format, or fail both. -/
theorem compile_of_reordered {t t' : Template} (sameId : t.id = t'.id) (sameCss : t.css = t'.css)
    {roots roots' : List Node} (parsed : Markup.parse t.html = .ok roots)
    (parsed' : Markup.parse t'.html = .ok roots') (reordered : ReorderedAll roots roots')
    (formats : List Format) (options : Option ComponentOptions) :
    (t.compile formats options).outcome.toOption = (t'.compile formats options).outcome.toOption := by
  have distinct : Distinct (elements roots) := Markup.forall_of_parse Markup.opened_distinct parsed
  unfold compile
  rw [parsed, parsed', sameCss, Reported.toOption_bind, Reported.toOption_bind]
  change ((_ : Reported _ _) >>= _).outcome.toOption = ((_ : Reported _ _) >>= _).outcome.toOption
  rw [Reported.toOption_bind, Reported.toOption_bind]
  congr
  funext rules
  exact compileEach_of_reordered sameId sameCss reordered distinct options rules formats

/-- Two markers that ask for one name, in attributes written one way and the other. -/
theorem compile_of_reordered_link :
    let t : Template := { id := "link", html := "<a title='{{ name }}' class='{{ name }}'>go</a>" }
    let t' : Template := { id := "link", html := "<a class='{{ name }}' title='{{ name }}'>go</a>" }
    let link (attrs : List Attr) : List Node := [.element { tag := "a", attrs } [.text "go"]]
    let roots := link [⟨"title", "{{ name }}"⟩, ⟨"class", "{{ name }}"⟩]
    let roots' := link [⟨"class", "{{ name }}"⟩, ⟨"title", "{{ name }}"⟩]
    Markup.parse t.html = .ok roots ∧ Markup.parse t'.html = .ok roots' ∧ ReorderedAll roots roots' ∧
      (t.compile Format.all none).outcome.toOption = (t'.compile Format.all none).outcome.toOption := by
  intro t t' link roots roots'
  have parsed : Markup.parse t.html = .ok roots := by
    have events : Markup.Event.scan t.html.toList =
        .ok [.opening { tag := "a", attrs := [⟨"title", "{{ name }}"⟩, ⟨"class", "{{ name }}"⟩] },
          .text "go", .closing "a"] := by decide +kernel
    unfold Markup.parse
    rw [events]
    rfl
  have parsed' : Markup.parse t'.html = .ok roots' := by
    have events : Markup.Event.scan t'.html.toList =
        .ok [.opening { tag := "a", attrs := [⟨"class", "{{ name }}"⟩, ⟨"title", "{{ name }}"⟩] },
          .text "go", .closing "a"] := by decide +kernel
    unfold Markup.parse
    rw [events]
    rfl
  have reordered : ReorderedAll roots roots' := by
    exact ⟨⟨⟨rfl, .swap .., rfl, rfl⟩, Or.inr ⟨by decide, rfl, trivial⟩⟩, trivial⟩
  have sameId : t.id = t'.id := rfl
  have sameCss : t.css = t'.css := rfl
  have same := compile_of_reordered sameId sameCss parsed parsed' reordered Format.all none
  exact ⟨parsed, parsed', reordered, same⟩

end Template

end Stencil
