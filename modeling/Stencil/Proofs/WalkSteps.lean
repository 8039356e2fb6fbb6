import Stencil.Proofs.BoundNames

/-! A walk that ends well, as the steps it takes. The steps form a tree like the markup: what stands inside
an element or a condition is told between its opening and its closing. A target that writes down what it
is told has the steps one after the other. -/
namespace Stencil

open Markup (Node Element)

namespace Walk

/-- What a walk tells its target. Opening an element has the name that the target answered. -/
inductive Call where
  | openElement (opening : Opening) (name : String)
  | closeElement (name : String)
  | addText (text : String)
  | addVariable (key default : String)
  | openCondition (condition : Condition)
  | closeCondition

/-- What a walk does at one place. A self-closing element has no steps inside. -/
inductive Step where
  | element (opening : Opening) (name : String) (inside : List Step)
  | text (text : String)
  | value (key default : String)
  | condition (condition : Condition) (inside : List Step)

mutual

def Step.calls : Step → List Call
  | .element o name inside =>
    .openElement o name :: if o.selfClosing then [] else callsOf inside ++ [.closeElement name]
  | .text text => [.addText text]
  | .value key default => [.addVariable key default]
  | .condition condition inside => .openCondition condition :: callsOf inside ++ [.closeCondition]

/-- What the target is told, in order: what is opened last is closed first, an element under the name it
was opened with. -/
def callsOf : List Step → List Call
  | [] => []
  | step :: rest => step.calls ++ callsOf rest

end

mutual

def Step.openings : Step → List Opening
  | .element o _ inside => o :: openingsOf inside
  | .text _ => []
  | .value _ _ => []
  | .condition _ inside => openingsOf inside

def openingsOf : List Step → List Opening
  | [] => []
  | step :: rest => step.openings ++ openingsOf rest

end

variable {τ : Type}

/-- What the target is told about an element with these attributes. -/
def opening (c : Context τ) (e : Element) (attributes : List Attribute) : Opening :=
  { tag := e.tag, attributes, rules := (candidate e attributes).keep c.rules, selfClosing := e.isLeaf }

/-- A walk over the nodes that ends well leads from one state to another, in these steps. -/
inductive Walks (c : Context τ) : List Node → τ → List Step → τ → Prop where
  | nil {s} : Walks c [] s [] s
  | text {text rest s steps u} : Walks c rest (c.target.addText text s) steps u →
      Walks c (.text text :: rest) s (.text text :: steps) u
  | comment {text rest s steps u} : Walks c rest s steps u → Walks c (.comment text :: rest) s steps u
  | value {e children rest s key r steps u} : e.tag = variableTag →
      Text.trim (e.authored "key") ≠ "" →
      (c.target.registry s).share (Text.trim (e.authored "key"))
        { type := .node, optional := true, tag := none } = .ok (key, r) →
      Walks c rest (c.target.addVariable key (Node.renderAll children) (c.target.withRegistry r s))
        steps u →
      Walks c (.element e children :: rest) s (.value key (Node.renderAll children) :: steps) u
  | condition {e children rest s condition key r t inside v steps u} : e.tag = conditionTag →
      Condition.parse? (Text.trim (e.authored "key")) = some condition →
      (c.target.registry s).share condition.key { type := .string, optional := true, tag := none } =
        .ok (key, r) →
      c.target.openCondition { condition with key } (c.target.withRegistry r s) = .ok t →
      Walks c children t inside v → Walks c rest (c.target.closeCondition v).2 steps u →
      Walks c (.element e children :: rest) s (.condition { condition with key } inside :: steps) u
  | leaf {e children rest s attributes after name t steps u} : e.tag ≠ variableTag →
      e.tag ≠ conditionTag → e.isLeaf = true →
      Attribute.compile Markup.Access.ofElement e.tag c.template
        { node := e, registry := c.target.registry s } = (.ok attributes, after) →
      (c.target.openElement (opening c e attributes) (c.target.withRegistry after.registry s)).outcome =
        .ok (name, t) →
      Walks c rest t steps u →
      Walks c (.element e children :: rest) s (.element (opening c e attributes) name [] :: steps) u
  | parent {e children rest s attributes after name t inside v steps u} : e.tag ≠ variableTag →
      e.tag ≠ conditionTag → e.isLeaf = false →
      Attribute.compile Markup.Access.ofElement e.tag c.template
        { node := e, registry := c.target.registry s } = (.ok attributes, after) →
      (c.target.openElement (opening c e attributes) (c.target.withRegistry after.registry s)).outcome =
        .ok (name, t) →
      Walks c children t inside v → Walks c rest (c.target.closeElement name v) steps u →
      Walks c (.element e children :: rest) s (.element (opening c e attributes) name inside :: steps) u

section

variable {c : Context τ} {s t u : τ} {e : Element}

theorem share_iff {name key : String} {type : KeyType} :
    (share c name type s).outcome = .ok (key, t) ↔
      ∃ r, (c.target.registry s).share name { type, optional := true, tag := none } = .ok (key, r) ∧
        t = c.target.withRegistry r s := by
  unfold share
  constructor
  · intro done
    split at done
    · rename_i called
      cases done
      exact ⟨_, called, rfl⟩
    · cases done
  · rintro ⟨r, called, rfl⟩
    rw [called]
    rfl

theorem requiredKey_iff {key : String} :
    (requiredKey c e s).outcome = .ok (key, t) ↔
      key = Text.trim (e.authored "key") ∧ key ≠ "" ∧ t = s := by
  by_cases nonempty : Text.trim (e.authored "key") = ""
  · have missing : (requiredKey c e s).outcome = .error (.missingKey c.template e.tag) := by
      simp only [requiredKey, nonempty]
      rfl
    rw [missing]
    simp only [nonempty, reduceCtorEq, false_iff]
    rintro ⟨rfl, absent, -⟩
    exact absent rfl
  · rw [requiredKey_eq nonempty]
    constructor
    · intro done
      obtain ⟨same, here⟩ := Prod.mk.inj (Except.ok.inj done)
      exact ⟨same.symm, same ▸ nonempty, here.symm⟩
    · rintro ⟨rfl, -, rfl⟩
      rfl

/-- Two parts of a walk end well in turn if the second ends well where the first ended. -/
theorem bind_iff {α β : Type} {x : WalkM τ α} {f : α → WalkM τ β} {b : β} :
    ((x >>= f) s).outcome = .ok (b, u) ↔
      ∃ a t, (x s).outcome = .ok (a, t) ∧ (f a t).outcome = .ok (b, u) := by
  constructor
  · exact bind_eq_ok
  · rintro ⟨a, t, first, second⟩
    change (Reported.bind (x s) fun p => f p.1 p.2).outcome = _
    unfold Reported.bind
    rw [first]
    exact second

theorem addVariable_iff {children : List Node} :
    (addVariable c e children s).outcome = .ok ((), t) ↔
      Text.trim (e.authored "key") ≠ "" ∧
      ∃ key r, (c.target.registry s).share (Text.trim (e.authored "key"))
          { type := .node, optional := true, tag := none } = .ok (key, r) ∧
        t = c.target.addVariable key (Node.renderAll children) (c.target.withRegistry r s) := by
  unfold addVariable
  simp only [bind_iff, requiredKey_iff, share_iff]
  constructor
  · rintro ⟨name, _, ⟨rfl, nonempty, rfl⟩, key, _, ⟨r, shared, rfl⟩, done⟩
    cases done
    exact ⟨nonempty, key, r, shared, rfl⟩
  · rintro ⟨nonempty, key, r, shared, rfl⟩
    exact ⟨_, s, ⟨rfl, nonempty, rfl⟩, key, _, ⟨r, shared, rfl⟩, rfl⟩

theorem openCondition_iff :
    (openCondition c e s).outcome = .ok ((), t) ↔
      ∃ condition key r, Condition.parse? (Text.trim (e.authored "key")) = some condition ∧
        (c.target.registry s).share condition.key { type := .string, optional := true, tag := none } =
          .ok (key, r) ∧
        c.target.openCondition { condition with key } (c.target.withRegistry r s) = .ok t := by
  unfold openCondition
  simp only [bind_iff, requiredKey_iff]
  constructor
  · rintro ⟨_, _, ⟨rfl, -, rfl⟩, done⟩
    cases parsed : Condition.parse? (Text.trim (e.authored "key")) with
    | none =>
      rw [parsed] at done
      cases done
    | some condition =>
      rw [parsed] at done
      obtain ⟨key, _, called, done⟩ := bind_iff.mp done
      obtain ⟨r, shared, rfl⟩ := share_iff.mp called
      split at done
      · rename_i opened
        cases done
        exact ⟨condition, key, r, rfl, shared, opened⟩
      · cases done
  · rintro ⟨condition, key, r, parsed, shared, opened⟩
    have nonempty : Text.trim (e.authored "key") ≠ "" := by
      intro empty
      rw [empty] at parsed
      cases parsed
    refine ⟨_, s, ⟨rfl, nonempty, rfl⟩, ?_⟩
    rw [parsed]
    refine bind_iff.mpr ⟨key, _, share_iff.mpr ⟨r, shared, rfl⟩, ?_⟩
    rw [opened]
    rfl

theorem openElement_iff {name : String} :
    (openElement c e s).outcome = .ok (name, t) ↔
      ∃ attributes after, Attribute.compile Markup.Access.ofElement e.tag c.template
          { node := e, registry := c.target.registry s } = (.ok attributes, after) ∧
        (c.target.openElement (opening c e attributes)
          (c.target.withRegistry after.registry s)).outcome = .ok (name, t) := by
  unfold openElement
  simp only [bind_iff]
  constructor
  · rintro ⟨attributes, middle, compiled, done⟩
    unfold Walk.attributes at compiled
    rcases ended : Attribute.compile Markup.Access.ofElement e.tag c.template
      { node := e, registry := c.target.registry s } with ⟨failure | made, after⟩
    · rw [ended] at compiled
      cases compiled
    · rw [ended] at compiled
      cases compiled
      exact ⟨attributes, after, rfl, Reported.mapError_eq_ok done⟩
  · rintro ⟨attributes, after, compiled, opened⟩
    refine ⟨attributes, c.target.withRegistry after.registry s, ?_, ?_⟩
    · unfold Walk.attributes
      rw [compiled]
    · unfold Reported.mapError
      change Except.mapError _ (c.target.openElement (opening c e attributes) _).outcome = _
      rw [opened]
      rfl

mutual

theorem Walks.of_walkNode {rest : List Node} {steps : List Step} {u : τ} : (n : Node) → {s t : τ} →
    (walkNode c n s).outcome = .ok ((), t) → Walks c rest t steps u →
    ∃ steps, Walks c (n :: rest) s steps u
  | .text content, s, t, done, walks => by
    cases done
    exact ⟨_, .text walks⟩
  | .comment _, s, t, done, walks => by
    cases done
    exact ⟨_, .comment walks⟩
  | .element e children, s, t, done, walks => by
    unfold walkNode at done
    split at done
    · rename_i tag
      obtain ⟨nonempty, key, r, shared, rfl⟩ := addVariable_iff.mp done
      exact ⟨_, .value (by simpa using tag) nonempty shared walks⟩
    · rename_i notVariable
      have notVariable : e.tag ≠ variableTag := by simpa using notVariable
      split at done
      · rename_i tag
        obtain ⟨_, middle, opened, done⟩ := bind_iff.mp done
        obtain ⟨condition, key, r, parsed, shared, opened⟩ := openCondition_iff.mp opened
        obtain ⟨_, v, walked, done⟩ := bind_iff.mp done
        obtain ⟨inside, walked⟩ := Walks.of_walk children walked
        cases done
        exact ⟨_, .condition (by simpa using tag) parsed shared opened walked walks⟩
      · rename_i notCondition
        have notCondition : e.tag ≠ conditionTag := by simpa using notCondition
        obtain ⟨name, middle, opened, done⟩ := bind_iff.mp done
        obtain ⟨attributes, after, compiled, opened⟩ := openElement_iff.mp opened
        cases leaf : e.isLeaf with
        | true =>
          rw [leaf] at done
          cases done
          exact ⟨_, .leaf notVariable notCondition leaf compiled opened walks⟩
        | false =>
          rw [leaf] at done
          obtain ⟨_, v, walked, done⟩ := bind_iff.mp done
          obtain ⟨inside, walked⟩ := Walks.of_walk children walked
          cases done
          exact ⟨_, .parent notVariable notCondition leaf compiled opened walked walks⟩

/-- Every walk that ends well takes some steps. -/
theorem Walks.of_walk : (nodes : List Node) → {s u : τ} →
    (walk c nodes s).outcome = .ok ((), u) → ∃ steps, Walks c nodes s steps u
  | [], s, u, done => by
    cases done
    exact ⟨[], .nil⟩
  | n :: rest, s, u, done => by
    unfold walk at done
    obtain ⟨_, t, first, later⟩ := bind_iff.mp done
    obtain ⟨steps, walks⟩ := Walks.of_walk rest later
    exact Walks.of_walkNode n first walks

end

/-- And only a walk that ends well does. -/
theorem Walks.walk_eq_ok {nodes : List Node} {steps : List Step} (walks : Walks c nodes s steps u) :
    (walk c nodes s).outcome = .ok ((), u) := by
  induction walks with
  | nil => rfl
  | text _ ih =>
    unfold walk
    exact bind_iff.mpr ⟨(), _, rfl, ih⟩
  | comment _ ih =>
    unfold walk
    exact bind_iff.mpr ⟨(), _, rfl, ih⟩
  | value tag nonempty shared _ ih =>
    unfold walk walkNode
    rw [if_pos (by simpa using tag)]
    exact bind_iff.mpr ⟨(), _, addVariable_iff.mpr ⟨nonempty, _, _, shared, rfl⟩, ih⟩
  | @condition e _ _ _ _ _ _ _ _ _ _ _ tag parsed shared opened _ _ inner ih =>
    have other : ¬(e.tag == variableTag) = true := by
      rw [tag]
      decide
    have told := openCondition_iff.mpr ⟨_, _, _, parsed, shared, opened⟩
    unfold walk walkNode
    rw [if_neg other, if_pos (by simpa using tag)]
    exact bind_iff.mpr ⟨(), _, bind_iff.mpr ⟨(), _, told, bind_iff.mpr ⟨(), _, inner, rfl⟩⟩, ih⟩
  | leaf notVariable notCondition leaf compiled opened _ ih =>
    have told := openElement_iff.mpr ⟨_, _, compiled, opened⟩
    unfold walk walkNode
    rw [if_neg (by simpa using notVariable), if_neg (by simpa using notCondition), leaf]
    exact bind_iff.mpr ⟨(), _, bind_iff.mpr ⟨_, _, told, rfl⟩, ih⟩
  | parent notVariable notCondition leaf compiled opened _ _ inner ih =>
    have told := openElement_iff.mpr ⟨_, _, compiled, opened⟩
    unfold walk walkNode
    rw [if_neg (by simpa using notVariable), if_neg (by simpa using notCondition), leaf]
    exact bind_iff.mpr ⟨(), _, bind_iff.mpr ⟨_, _, told, bind_iff.mpr ⟨(), _, inner, rfl⟩⟩, ih⟩

end

end Walk

/-- A target that also writes down what it is told. -/
def Target.recorded {τ : Type} (t : Target τ) : Target (τ × List Walk.Call) where
  registry s := t.registry s.1
  withRegistry r s := (t.withRegistry r s.1, s.2)
  openElement o s := do
    let (name, u) ← t.openElement o s.1
    return (name, u, s.2 ++ [.openElement o name])
  closeElement name s := (t.closeElement name s.1, s.2 ++ [.closeElement name])
  addText text s := (t.addText text s.1, s.2 ++ [.addText text])
  addVariable key default s := (t.addVariable key default s.1, s.2 ++ [.addVariable key default])
  openCondition c s := (t.openCondition c s.1).map fun u => (u, s.2 ++ [.openCondition c])
  closeCondition s := ((t.closeCondition s.1).1, (t.closeCondition s.1).2, s.2 ++ [.closeCondition])

theorem Target.recorded_openElement {τ : Type} (t : Target τ) {o : Opening} {s u : τ} {name : String}
    (calls : List Walk.Call) (opened : (t.openElement o s).outcome = .ok (name, u)) :
    (t.recorded.openElement o (s, calls)).outcome = .ok (name, u, calls ++ [.openElement o name]) := by
  change (Reported.bind (t.openElement o s) _).outcome = _
  unfold Reported.bind
  rw [opened]
  rfl

namespace Walk

variable {τ : Type}

def Context.recorded (c : Context τ) : Context (τ × List Call) :=
  { target := c.target.recorded, template := c.template, rules := c.rules }

/-- Writing down what a target is told does not change the walk, and what is written down are its steps. -/
theorem Walks.recorded {c : Context τ} {nodes : List Node} {s u : τ} {steps : List Step}
    (walks : Walks c nodes s steps u) (calls : List Call) :
    Walks c.recorded nodes (s, calls) steps (u, calls ++ callsOf steps) := by
  induction walks generalizing calls with
  | nil => simpa [callsOf] using Walks.nil
  | @text text _ _ steps _ _ ih =>
    have flat : calls ++ callsOf (.text text :: steps) = calls ++ [.addText text] ++ callsOf steps := by
      simp [callsOf, Step.calls]
    rw [flat]
    exact .text (ih _)
  | comment _ ih => exact .comment (ih calls)
  | @value _ children _ _ key _ steps _ tag nonempty shared _ ih =>
    have flat : calls ++ callsOf (.value key (Node.renderAll children) :: steps) =
        calls ++ [.addVariable key (Node.renderAll children)] ++ callsOf steps := by
      simp [callsOf, Step.calls]
    rw [flat]
    exact .value tag nonempty shared (ih _)
  | @condition _ _ _ _ condition key _ _ inside _ steps _ tag parsed shared opened _ _ inner ih =>
    have told := congrArg (Except.map fun u => (u, calls ++ [.openCondition { condition with key }])) opened
    have flat : calls ++ callsOf (.condition { condition with key } inside :: steps) =
        calls ++ [.openCondition { condition with key }] ++ callsOf inside ++ [.closeCondition] ++
          callsOf steps := by
      simp [callsOf, Step.calls]
    rw [flat]
    exact .condition tag parsed shared told (inner _) (ih _)
  | @leaf e _ _ _ attributes _ name _ steps _ notVariable notCondition leaf compiled opened _ ih =>
    have told := c.target.recorded_openElement calls opened
    have flat : calls ++ callsOf (.element (opening c e attributes) name [] :: steps) =
        calls ++ [.openElement (opening c e attributes) name] ++ callsOf steps := by
      simp [callsOf, Step.calls, show (opening c e attributes).selfClosing = true from leaf]
    rw [flat]
    exact .leaf notVariable notCondition leaf compiled told (ih _)
  | @parent e _ _ _ attributes _ name _ inside _ steps _ notVariable notCondition leaf compiled opened
      _ _ inner ih =>
    have told := c.target.recorded_openElement calls opened
    have flat : calls ++ callsOf (.element (opening c e attributes) name inside :: steps) =
        calls ++ [.openElement (opening c e attributes) name] ++ callsOf inside ++ [.closeElement name] ++
          callsOf steps := by
      simp [callsOf, Step.calls, show (opening c e attributes).selfClosing = false from leaf]
    rw [flat]
    exact .parent notVariable notCondition leaf compiled told (inner _) (ih _)

end Walk

end Stencil
