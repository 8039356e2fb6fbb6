import Stencil.Proofs.KeylessAttributes
import Stencil.Proofs.ParsedElements
import Stencil.Proofs.PreviewSkeleton
import Stencil.Proofs.WrittenNames

/-! Whether a template compiles, in one format and in another. The walks of two formats meet the same
elements, and what can fail about these (an attribute, a missing key, a condition that cannot be read) does
not depend on the keys that are registered so far or on what is written. So the formats fail for the same
reason or not at all. Only Mustache has a reason of its own: it has no comparisons. -/
namespace Stencil

open Markup (Node Element)
open Preview (compares)

theorem Reported.outcome_bind {ε α β : Type} (x : Reported ε α) (f : α → Reported ε β) :
    (x >>= f).outcome = (x.outcome >>= fun a => (f a).outcome) := by
  change (Reported.bind x f).outcome = _
  unfold Reported.bind
  cases x.outcome <;> rfl

section

variable {ε α β : Type} {Q : α → β → Prop} {x : Except ε α} {y : Except ε β}

theorem Ends.error_iff (ends : Ends Q x y) (e : ε) : x = .error e ↔ y = .error e := by
  cases ends <;> simp

theorem Ends.ok_iff (ends : Ends Q x y) : (∃ a, x = .ok a) ↔ ∃ b, y = .ok b := by
  cases ends <;> simp

end

namespace Component.Draft

theorem exists_handlers {tag : String} {wanted : List (String × KeyType)}
    (named : ∀ w ∈ wanted, Text.trim w.1 ≠ "") (r : Registry) :
    ∃ added r', handlers tag wanted r = .ok (added, r') := by
  induction wanted generalizing r with
  | nil => exact ⟨[], r, rfl⟩
  | cons first rest ih =>
    obtain ⟨name, type⟩ := first
    obtain ⟨r', called, -⟩ := r.register_eq_ok { type, optional := true, tag := some tag }
      (named (name, type) (List.mem_cons_self ..))
    obtain ⟨a, given⟩ : ∃ a, handler r tag name type = .ok (a, r') := by
      unfold handler
      rw [called]
      exact ⟨_, rfl⟩
    obtain ⟨later, r'', done⟩ := ih (fun w member => named w (List.mem_cons_of_mem _ member)) r'
    refine ⟨a :: later, r'', ?_⟩
    unfold handlers
    rw [given]
    change (handlers tag rest r' >>= _) = _
    rw [done]
    rfl

/-- A component can open every element: its handlers have names. -/
theorem exists_openElement (d : Draft) (tag : String) (attributes : List Attribute)
    (rules : List Style.Rule) (selfClosing : Bool) :
    ∃ opened, (d.openElement tag attributes rules selfClosing).outcome = .ok opened := by
  have known : ∀ name ∈ ["onChange", "ref", "onClick"], Text.trim name ≠ "" := by decide
  have named : ∀ w ∈ handlersFor (Text.toLowerAscii tag) attributes, Text.trim w.1 ≠ "" :=
    fun w member => known w.1 ((handlersFor_sublist ..).subset (List.mem_map_of_mem member))
  obtain ⟨added, r, done⟩ := @exists_handlers (Text.toLowerAscii tag) _ named d.registry
  unfold openElement
  rw [Reported.outcome_bind]
  change ∃ opened, (handlers _ (handlersFor _ attributes) d.registry >>= _) = .ok opened
  rw [done]
  exact ⟨_, rfl⟩

end Component.Draft

theorem LogicLess.Draft.opening_cases (d : Draft) (c : Condition) :
    (∃ text, d.opening c = .ok text ∧ (d.dialect = .mustache → c.comparison.isSome = false)) ∨
    ∃ reason, d.opening c = .error reason ∧ d.dialect = .mustache ∧ c.comparison.isSome = true := by
  unfold opening
  split
  · rename_i plain
    exact .inl ⟨_, rfl, fun _ => by rw [plain]; rfl⟩
  · rename_i dialect compared
    exact .inr ⟨_, rfl, dialect, by rw [compared]; rfl⟩
  · rename_i dialect _
    exact .inl ⟨_, rfl, by simp [dialect]⟩
  · rename_i dialect _
    exact .inl ⟨_, rfl, by simp [dialect]⟩

namespace Draft

/-- Whether conditions of the format can compare. -/
def comparing : Draft → Bool
  | .logicLess d => d.dialect == .serverEmbed
  | .component _ => true

theorem comparing_start (format : Format) (template : String) (options : Option ComponentOptions) :
    (start format template options).comparing = (format != .mustache) := by
  cases format <;> rfl

@[simp] theorem comparing_withRegistry (r : Registry) (s : Draft) :
    (s.withRegistry r).comparing = s.comparing := by
  cases s <;> rfl

@[simp] theorem comparing_addText (text : String) (s : Draft) :
    (s.addText text).comparing = s.comparing := by
  cases s <;> rfl

@[simp] theorem comparing_closeElement (name : String) (s : Draft) :
    (s.closeElement name).comparing = s.comparing := by
  cases s <;> rfl

@[simp] theorem comparing_addVariable (key default : String) (s : Draft) :
    (s.addVariable key default).comparing = s.comparing := by
  cases s with
  | logicLess d =>
    change ((d.addVariable key).dialect == _) = (d.dialect == _)
    unfold LogicLess.Draft.addVariable
    split <;> rfl
  | component d => rfl

@[simp] theorem comparing_closeCondition (s : Draft) : s.closeCondition.2.comparing = s.comparing := by
  cases s with
  | logicLess d =>
    change (d.closeCondition.2.dialect == _) = (d.dialect == _)
    unfold LogicLess.Draft.closeCondition
    split <;> rfl
  | component d => rfl

theorem exists_openElement (o : Opening) (s : Draft) :
    ∃ name t, (s.openElement o).outcome = .ok (name, t) ∧ t.comparing = s.comparing := by
  cases s with
  | logicLess d => exact ⟨_, _, rfl, rfl⟩
  | component d =>
    obtain ⟨⟨name, d'⟩, done⟩ := d.exists_openElement o.tag o.attributes o.rules o.selfClosing
    refine ⟨name, .component d', ?_, rfl⟩
    unfold openElement
    rw [Reported.outcome_bind, done]
    rfl

theorem comparing_openElement {o : Opening} {s t : Draft} {name : String}
    (done : (s.openElement o).outcome = .ok (name, t)) : t.comparing = s.comparing := by
  obtain ⟨_, u, opened, same⟩ := exists_openElement o s
  rw [opened] at done
  cases done
  exact same

/-- A condition is refused if it compares and the format cannot. -/
theorem openCondition_cases (c : Condition) (s : Draft) :
    (∃ t, s.openCondition c = .ok t ∧ t.comparing = s.comparing ∧
      (s.comparing = false → c.comparison.isSome = false)) ∨
    ∃ reason, s.openCondition c = .error reason ∧ s.comparing = false ∧ c.comparison.isSome = true := by
  cases s with
  | component d => exact .inl ⟨_, rfl, rfl, by simp [comparing]⟩
  | logicLess d =>
    unfold openCondition LogicLess.Draft.openCondition
    dsimp only
    rcases d.opening_cases c with ⟨text, opened, plain⟩ | ⟨reason, refused, dialect, compared⟩
    · rw [opened]
      refine .inl ⟨_, rfl, rfl, fun incomparable => plain ?_⟩
      cases dialect : d.dialect with
      | mustache => rfl
      | serverEmbed => simp [comparing, dialect] at incomparable
    · rw [refused]
      exact .inr ⟨reason, rfl, by simp [comparing, dialect], compared⟩

theorem exists_openCondition (c : Condition) (s : Draft)
    (plain : s.comparing = false → c.comparison.isSome = false) :
    ∃ t, s.openCondition c = .ok t ∧ t.comparing = s.comparing := by
  rcases openCondition_cases c s with ⟨t, opened, same, -⟩ | ⟨_, -, incomparable, compared⟩
  · exact ⟨t, opened, same⟩
  · exact absurd (plain incomparable) (by simp [compared])

theorem comparing_openCondition {c : Condition} {s t : Draft} (opened : s.openCondition c = .ok t) :
    t.comparing = s.comparing ∧ (s.comparing = false → c.comparison.isSome = false) := by
  rcases openCondition_cases c s with ⟨_, known, told⟩ | ⟨_, refused, -⟩
  · rw [known] at opened
    cases opened
    exact told
  · rw [refused] at opened
    cases opened

end Draft

namespace Template

mutual

def exposedOf : Node → List Element
  | .element e children => if e.tag == variableTag then [e] else e :: exposed children
  | _ => []

/-- The elements that do not stand inside a variable, in document order. -/
def exposed : List Node → List Element
  | [] => []
  | n :: rest => exposedOf n ++ exposed rest

end

theorem exposed_variable {e : Element} (tag : e.tag = variableTag) (children rest : List Node) :
    exposed (.element e children :: rest) = e :: exposed rest := by
  simp [exposed, exposedOf, tag]

theorem exposed_element {e : Element} (tag : e.tag ≠ variableTag) (children rest : List Node) :
    exposed (.element e children :: rest) = e :: (exposed children ++ exposed rest) := by
  simp [exposed, exposedOf, tag]

end Template

theorem compares_of_other {e : Element} (tag : e.tag ≠ conditionTag) : compares e = false := by
  simp [compares, tag]

/-- A condition compares whether it is trimmed before or not. -/
theorem compares_of_parse? {e : Element} {c : Condition} (tag : e.tag = conditionTag)
    (parsed : Condition.parse? (Text.trim (e.authored "key")) = some c) :
    compares e = c.comparison.isSome := by
  rw [Condition.parse?_trim_eq] at parsed
  obtain ⟨written, read, rfl⟩ := Option.map_eq_some_iff.mp parsed
  simp [compares, tag, read, Condition.trimmed]

namespace Walk

open Template (exposed exposedOf)

variable {α α' β β' : Type} {k k' : Bool}

/-- Two parts of walks that end alike from any two drafts, the first of which has comparisons if `k` is true
and the second if `k'` is. -/
def Tied (k k' : Bool) (Q : α → β → Prop) (x : WalkM Draft α) (y : WalkM Draft β) : Prop :=
  ∀ s t, s.comparing = k → t.comparing = k' →
    Ends (fun p q => Q p.1 q.1 ∧ p.2.comparing = k ∧ q.2.comparing = k') (x s).outcome (y t).outcome

theorem tied_pure {Q : α → β → Prop} {a : α} {b : β} (same : Q a b) : Tied k k' Q (pure a) (pure b) :=
  fun _ _ here there => .ok ⟨same, here, there⟩

theorem tied_throw {Q : α → β → Prop} (e : CompileError) : Tied k k' Q (throw e) (throw e) :=
  fun _ _ _ _ => .error e

theorem tied_bind {Q : α → β → Prop} {Q' : α' → β' → Prop} {x : WalkM Draft α} {y : WalkM Draft β}
    {f : α → WalkM Draft α'} {g : β → WalkM Draft β'} (first : Tied k k' Q x y)
    (rest : ∀ a b, Q a b → Tied k k' Q' (f a) (g b)) : Tied k k' Q' (x >>= f) (y >>= g) := by
  intro s t here there
  change Ends _ (x s >>= fun p => f p.1 p.2).outcome (y t >>= fun q => g q.1 q.2).outcome
  rw [Reported.outcome_bind, Reported.outcome_bind]
  apply (first s t here there).bind
  rintro ⟨a, s'⟩ ⟨b, t'⟩ ⟨same, here, there⟩
  exact rest a b same s' t' here there

theorem tied_modify {f g : Draft → Draft} (left : ∀ s, (f s).comparing = s.comparing)
    (right : ∀ s, (g s).comparing = s.comparing) :
    Tied k k' (fun _ _ => True) (modify f : WalkM Draft Unit) (modify g) :=
  fun s t here there => .ok ⟨trivial, (left s).trans here, (right t).trans there⟩

section

variable (t : Template) (rules : List Style.Rule) (e : Element)

theorem tied_share (name : String) (type : KeyType) :
    Tied k k' (fun _ _ => True) (share (t.context rules) name type) (share (t.context rules) name type) := by
  intro s s' here there
  have ends := Registry.Entry.ends_call .share ((t.context rules).target.registry s)
    ((t.context rules).target.registry s') name { type, optional := true, tag := none }
  simp only [Registry.Entry.call] at ends
  unfold share
  generalize Registry.share ((t.context rules).target.registry s) name _ = x at ends ⊢
  generalize Registry.share ((t.context rules).target.registry s') name _ = y at ends ⊢
  cases ends with
  | ok => exact .ok ⟨trivial, (Draft.comparing_withRegistry _ s).trans here,
      (Draft.comparing_withRegistry _ s').trans there⟩
  | error reason => exact .error _

theorem tied_requiredKey :
    Tied k k' (fun key key' => key = Text.trim (e.authored "key") ∧ key' = Text.trim (e.authored "key"))
      (requiredKey (t.context rules) e) (requiredKey (t.context rules) e) := by
  unfold requiredKey
  dsimp only
  split
  · exact tied_throw _
  · exact tied_pure ⟨rfl, rfl⟩

theorem tied_addVariable (children : List Node) :
    Tied k k' (fun _ _ => True) (addVariable (t.context rules) e children)
      (addVariable (t.context rules) e children) := by
  apply tied_bind (tied_requiredKey t rules e)
  rintro _ _ ⟨rfl, rfl⟩
  apply tied_bind (tied_share t rules _ .node)
  intro key key' _
  exact tied_modify (Draft.comparing_addVariable key _) (Draft.comparing_addVariable key' _)

/-- A condition opens in both formats or in neither, unless it compares and one of them cannot. -/
theorem tied_openCondition (tag : e.tag = conditionTag)
    (plain : k = false ∨ k' = false → compares e = false) :
    Tied k k' (fun _ _ => True) (openCondition (t.context rules) e) (openCondition (t.context rules) e) := by
  apply tied_bind (tied_requiredKey t rules e)
  rintro _ _ ⟨rfl, rfl⟩
  cases parsed : Condition.parse? (Text.trim (e.authored "key")) with
  | none => exact tied_throw _
  | some condition =>
    have plain : k = false ∨ k' = false → condition.comparison.isSome = false := fun either =>
      (compares_of_parse? tag parsed).symm.trans (plain either)
    apply tied_bind (tied_share t rules condition.key .string)
    intro key key' _ s s' here there
    obtain ⟨u, opened, same⟩ := s.exists_openCondition { condition with key }
      fun incomparable => plain (.inl (here.symm.trans incomparable))
    obtain ⟨u', opened', same'⟩ := s'.exists_openCondition { condition with key := key' }
      fun incomparable => plain (.inr (there.symm.trans incomparable))
    dsimp only
    rw [show (t.context rules).target.openCondition { condition with key } s = .ok u from opened,
      show (t.context rules).target.openCondition { condition with key := key' } s' = .ok u' from opened']
    exact .ok ⟨trivial, same.trans here, same'.trans there⟩

theorem tied_closeCondition :
    Tied k k' (fun _ _ => True) (closeCondition (t.context rules)) (closeCondition (t.context rules)) :=
  fun s s' here there => .ok ⟨trivial, (Draft.comparing_closeCondition s).trans here,
    (Draft.comparing_closeCondition s').trans there⟩

theorem tied_attributes :
    Tied k k' Attribute.SameButKeys (attributes (t.context rules) e) (attributes (t.context rules) e) := by
  intro s s' here there
  have ends := Attribute.ends_compile Markup.Access.ofElement e.tag (t.context rules).template
    (s := { node := e, registry := (t.context rules).target.registry s })
    (t := { node := e, registry := (t.context rules).target.registry s' }) rfl
  unfold attributes
  generalize Attribute.compile _ e.tag _ { node := e, registry := (t.context rules).target.registry s } = x
    at ends ⊢
  generalize Attribute.compile _ e.tag _ { node := e, registry := (t.context rules).target.registry s' } = y
    at ends ⊢
  obtain ⟨left, compiled⟩ := x
  obtain ⟨right, compiled'⟩ := y
  cases ends with
  | ok same => exact .ok ⟨same, (Draft.comparing_withRegistry _ s).trans here,
      (Draft.comparing_withRegistry _ s').trans there⟩
  | error failure => exact .error _

theorem tied_openElement :
    Tied k k' (fun _ _ => True) (openElement (t.context rules) e) (openElement (t.context rules) e) := by
  apply tied_bind (tied_attributes t rules e)
  intro written written' _ s s' here there
  obtain ⟨name, u, opened, same⟩ := Draft.exists_openElement (opening (t.context rules) e written) s
  obtain ⟨name', u', opened', same'⟩ := Draft.exists_openElement (opening (t.context rules) e written') s'
  change Ends _ (Except.mapError _ (s.openElement (opening (t.context rules) e written)).outcome)
    (Except.mapError _ (s'.openElement (opening (t.context rules) e written')).outcome)
  rw [opened, opened']
  exact .ok ⟨trivial, same.trans here, same'.trans there⟩

end

mutual

theorem tied_walkNode (t : Template) (rules : List Style.Rule) : (n : Node) →
    (k = false ∨ k' = false → ∀ e ∈ exposedOf n, compares e = false) →
    Tied k k' (fun _ _ => True) (walkNode (t.context rules) n) (walkNode (t.context rules) n)
  | .text content, _ => by
    unfold walkNode
    exact tied_modify (Draft.comparing_addText content) (Draft.comparing_addText content)
  | .comment _, _ => by
    unfold walkNode
    exact tied_pure trivial
  | .element e children, plain => by
    unfold exposedOf at plain
    unfold walkNode
    split
    · exact tied_addVariable t rules e children
    · rename_i notVariable
      rw [if_neg notVariable] at plain
      have inside := tied_walk t rules children fun either inner member =>
        plain either inner (List.mem_cons_of_mem _ member)
      split
      · rename_i tag
        apply tied_bind (tied_openCondition t rules e (by simpa using tag)
          fun either => plain either e (List.mem_cons_self ..))
        intro _ _ _
        apply tied_bind inside
        intro _ _ _
        exact tied_closeCondition t rules
      · apply tied_bind (tied_openElement t rules e)
        intro name name' _
        split
        · apply tied_bind inside
          intro _ _ _
          exact tied_modify (Draft.comparing_closeElement name) (Draft.comparing_closeElement name')
        · exact tied_pure trivial

/-- The walks of two formats end alike over nodes without comparisons, and over all nodes if both formats
have comparisons. -/
theorem tied_walk (t : Template) (rules : List Style.Rule) : (nodes : List Node) →
    (k = false ∨ k' = false → ∀ e ∈ exposed nodes, compares e = false) →
    Tied k k' (fun _ _ => True) (walk (t.context rules) nodes) (walk (t.context rules) nodes)
  | [], _ => by
    unfold walk
    exact tied_pure trivial
  | n :: rest, plain => by
    unfold exposed at plain
    unfold walk
    apply tied_bind (tied_walkNode t rules n fun either e member =>
      plain either e (List.mem_append_left _ member))
    intro _ _ _
    exact tied_walk t rules rest fun either e member => plain either e (List.mem_append_right _ member)

end

/-- A walk without comparisons that ends well has met none. -/
theorem Walks.plain {t : Template} {rules : List Style.Rule} {nodes : List Node} {s u : Draft}
    {steps : List Step} (walks : Walks (t.context rules) nodes s steps u) (hollow : Node.HollowAll nodes)
    (incomparable : s.comparing = false) :
    u.comparing = false ∧ ∀ e ∈ exposed nodes, compares e = false := by
  induction walks with
  | nil => exact ⟨incomparable, by simp [exposed]⟩
  | text _ ih =>
    obtain ⟨last, plain⟩ := ih hollow.2 ((Draft.comparing_addText ..).trans incomparable)
    exact ⟨last, by simpa [exposed, exposedOf] using plain⟩
  | comment _ ih =>
    obtain ⟨last, plain⟩ := ih hollow.2 incomparable
    exact ⟨last, by simpa [exposed, exposedOf] using plain⟩
  | @value e children rest s key r _ _ tag _ _ _ ih =>
    have kept : ((s.withRegistry r).addVariable key (Node.renderAll children)).comparing = false := by
      simpa using incomparable
    obtain ⟨last, later⟩ := ih hollow.2 kept
    rw [Template.exposed_variable tag]
    have other : e.tag ≠ conditionTag := by
      rw [tag]
      decide
    exact ⟨last, List.forall_mem_cons.mpr ⟨compares_of_other other, later⟩⟩
  | @condition e _ _ s condition key r _ _ v _ _ tag parsed _ opened _ _ inner ih =>
    obtain ⟨kept, plain⟩ := Draft.comparing_openCondition opened
    have start : (s.withRegistry r).comparing = false := by simpa using incomparable
    obtain ⟨middle, inside⟩ := inner hollow.1.2 (kept.trans start)
    have closed : v.closeCondition.2.comparing = false := by simpa using middle
    obtain ⟨last, later⟩ := ih hollow.2 closed
    have notVariable : e.tag ≠ variableTag := by
      rw [tag]
      decide
    rw [Template.exposed_element notVariable]
    have here : compares e = false := (compares_of_parse? tag parsed).trans (plain start)
    exact ⟨last, List.forall_mem_cons.mpr ⟨here, List.forall_mem_append.mpr ⟨inside, later⟩⟩⟩
  | @leaf e children _ s _ after _ _ _ _ notVariable notCondition leaf _ opened _ ih =>
    have start : (s.withRegistry after.registry).comparing = false := by simpa using incomparable
    obtain ⟨last, later⟩ := ih hollow.2 ((Draft.comparing_openElement opened).trans start)
    rw [Template.exposed_element notVariable, hollow.1.1 leaf]
    exact ⟨last, List.forall_mem_cons.mpr ⟨compares_of_other notCondition, later⟩⟩
  | @parent e _ _ s _ after name _ _ v _ _ notVariable notCondition _ _ opened _ _ inner ih =>
    have start : (s.withRegistry after.registry).comparing = false := by simpa using incomparable
    obtain ⟨middle, inside⟩ := inner hollow.1.2 ((Draft.comparing_openElement opened).trans start)
    have closed : (v.closeElement name).comparing = false := by simpa using middle
    obtain ⟨last, later⟩ := ih hollow.2 closed
    rw [Template.exposed_element notVariable]
    exact ⟨last, List.forall_mem_cons.mpr
      ⟨compares_of_other notCondition, List.forall_mem_append.mpr ⟨inside, later⟩⟩⟩

end Walk

namespace Template

theorem comparing_start (t : Template) (options : Option ComponentOptions) (roots : List Node)
    (format : Format) : (t.start options roots format).comparing = (format != .mustache) := by
  unfold start
  rw [Draft.comparing_withRegistry, Draft.comparing_start]

theorem outcome_compileTo (t : Template) (options : Option ComponentOptions) (roots : List Node)
    (rules : List Style.Rule) (format : Format) :
    (t.compileTo options roots rules format).outcome = (do
      let (_, draft) ← (Walk.walk (t.context rules) roots (t.start options roots format)).outcome
      return draft.files t.css (hasMultipleRoots roots)) := by
  rw [compileTo_eq, Reported.outcome_bind]
  rfl

theorem outcome_compile_single (t : Template) (format : Format) (options : Option ComponentOptions) :
    (t.compile [format] options).outcome = (do
      let roots ← (Markup.parse t.html).mapError .markup
      let rules ← (Style.parse t.css).outcome.mapError .style
      let files ← (t.compileTo options roots rules format).outcome
      return [(format, files)]) := by
  unfold compile
  rw [Reported.outcome_bind]
  refine bind_congr fun roots => ?_
  rw [Reported.outcome_bind]
  refine bind_congr fun rules => ?_
  unfold compileEach
  rw [Reported.outcome_bind]
  rfl

section

variable {t : Template} {options options' : Option ComponentOptions} {f g : Format}

theorem ends_compileTo {roots : List Node} {rules : List Style.Rule}
    (plain : f = .mustache ∨ g = .mustache → ∀ e ∈ exposed roots, compares e = false) :
    Ends (fun _ _ => True) (t.compileTo options roots rules f).outcome
      (t.compileTo options' roots rules g).outcome := by
  have tied := @Walk.tied_walk (f != .mustache) (g != .mustache) t rules roots
    (by simpa using plain) _ _ (t.comparing_start options roots f) (t.comparing_start options' roots g)
  rw [outcome_compileTo, outcome_compileTo]
  exact tied.bind fun _ _ _ => .ok trivial

/-- Two formats end alike, if one of them is Mustache only where nothing is compared. -/
theorem ends_compile_single (plain : f = .mustache ∨ g = .mustache →
      ∀ roots, Markup.parse t.html = .ok roots → ∀ e ∈ exposed roots, compares e = false) :
    Ends (fun _ _ => True) (t.compile [f] options).outcome (t.compile [g] options').outcome := by
  rw [outcome_compile_single, outcome_compile_single]
  cases parsed : Markup.parse t.html with
  | error e => exact .error _
  | ok roots =>
    cases (Style.parse t.css).outcome with
    | error e => exact .error _
    | ok rules =>
      exact (ends_compileTo fun either => plain either roots parsed).bind fun _ _ _ => .ok trivial

theorem plain_of_compile_mustache {files : List (Format × FileMap)} {roots : List Node}
    (done : (t.compile [.mustache] options).outcome = .ok files) (parsed : Markup.parse t.html = .ok roots) :
    ∀ e ∈ exposed roots, compares e = false := by
  rw [outcome_compile_single, parsed] at done
  obtain ⟨_, ⟨⟩, done⟩ := bind_eq_ok done
  obtain ⟨rules, -, done⟩ := bind_eq_ok done
  obtain ⟨written, compiled, -⟩ := bind_eq_ok done
  rw [outcome_compileTo] at compiled
  obtain ⟨ended, walked, -⟩ := bind_eq_ok compiled
  obtain ⟨steps, walks⟩ := Walk.Walks.of_walk roots walked
  exact (walks.plain (Markup.hollow_of_parse parsed) (t.comparing_start options roots .mustache)).2

end

/-- Formats other than Mustache fail with the same error or not at all, whatever their options, and Mustache
compiles what they compile as long as nothing is compared outside of variables. -/
theorem compiles_alike (t : Template) (options options' : Option ComponentOptions) :
    (∀ f g, f ≠ .mustache → g ≠ .mustache → ∀ failure,
      (t.compile [f] options).outcome = .error failure ↔
        (t.compile [g] options').outcome = .error failure) ∧
    ∀ f, f ≠ .mustache →
      ((∃ files, (t.compile [.mustache] options).outcome = .ok files) ↔
        (∃ files, (t.compile [f] options').outcome = .ok files) ∧
        ∀ roots, Markup.parse t.html = .ok roots → ∀ e ∈ exposed roots, compares e = false) := by
  refine ⟨fun f g first second failure => ?_, fun f other => ⟨?_, ?_⟩⟩
  · have ends : Ends _ (t.compile [f] options).outcome (t.compile [g] options').outcome :=
      ends_compile_single (by simp [first, second])
    exact ends.error_iff failure
  · rintro ⟨files, done⟩
    have plain : ∀ roots, Markup.parse t.html = .ok roots → ∀ e ∈ exposed roots, compares e = false :=
      fun _ parsed => plain_of_compile_mustache done parsed
    have ends : Ends _ (t.compile [.mustache] options).outcome (t.compile [f] options').outcome :=
      ends_compile_single fun _ => plain
    exact ⟨ends.ok_iff.mp ⟨files, done⟩, plain⟩
  · rintro ⟨done, plain⟩
    have ends : Ends _ (t.compile [.mustache] options).outcome (t.compile [f] options').outcome :=
      ends_compile_single fun _ => plain
    exact ends.ok_iff.mpr done

/-- A comparison, which only Mustache cannot compile, and the same comparison in the default of a variable. -/
theorem compiles_alike_but_for_comparison :
    let compared : Template := { id := "card", html := "<mt-if key=\"level?=error\">x</mt-if>" }
    let hidden : Template := { id := "card", html :=
      "<mt-variable key=\"title\"><mt-if key=\"level?=error\">x</mt-if></mt-variable>" }
    (∀ failure, (compared.compile [.reactJs] none).outcome ≠ .error failure) ∧
      (¬∃ files, (compared.compile [.mustache] none).outcome = .ok files) ∧
      ∃ files, (hidden.compile [.reactJs] none).outcome = .ok files := by
  intro compared hidden
  have embedded : (compared.compile [.twigEmbed] none).outcome.toOption.isSome = true := by decide +kernel
  have met : (Markup.parse compared.html).toOption.any (fun roots => (exposed roots).any compares) = true := by
    decide +kernel
  have written : (hidden.compile [.mustache] none).outcome.toOption.isSome = true := by decide +kernel
  obtain ⟨same, mustache⟩ := compiles_alike compared none none
  refine ⟨fun failure failed => ?_, fun done => ?_, ?_⟩
  · have refused := (same .twigEmbed .reactJs (by decide) (by decide) failure).mpr failed
    rw [refused] at embedded
    cases embedded
  · obtain ⟨-, plain⟩ := (mustache .reactJs (by decide)).mp done
    obtain ⟨roots, parsed, compares⟩ := (Option.any_eq_true _ _).mp met
    obtain ⟨e, member, compares⟩ := List.any_eq_true.mp compares
    simp [plain roots (ok_of_toOption parsed) e member] at compares
  · obtain ⟨files, done⟩ := Option.isSome_iff_exists.mp written
    exact (((compiles_alike hidden none none).2 .reactJs (by decide)).mp ⟨files, ok_of_toOption done⟩).1

end Template

end Stencil
