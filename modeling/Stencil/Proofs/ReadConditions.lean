import Stencil.Proofs.WalkSteps
import Stencil.Template.Preview

/-! The condition of an element as a walk and a preview read it. A walk takes the expression without the
blanks around it, a preview takes it as it stands. So they refuse the same elements, and they read the
same key and the same comparison; only blanks behind the value that a key is compared with are part of
the value for a preview and not for a walk. -/
namespace Stencil

open Markup (Node Element)

namespace Walk

variable {τ : Type}

/-- A walk stops at the element, whatever it writes to: the expression is blank or has no key. -/
def Refuses (e : Element) : Prop :=
  ∀ {τ : Type} (c : Context τ) (children : List Node) (s : τ), ∃ reason,
    walkNode c (.element e children) s = .error reason ∧
      (reason = .missingKey c.template e.tag ∨
        reason = .invalidCondition c.template (Text.trim (e.authored "key")))

/-- Whatever a walk writes to is told this condition, once the key is registered under its own name, and
decides how the walk goes on. -/
def Takes (e : Element) (condition : Condition) : Prop :=
  ∀ {τ : Type} (c : Context τ) (children : List Node) (s : τ), ∃ r : Registry, condition.key ∈ r.names ∧
    (∀ u, c.target.openCondition condition (c.target.withRegistry r s) = .ok u →
      walkNode c (.element e children) s = (walk c children >>= fun _ => closeCondition c) u) ∧
    ∀ reason, c.target.openCondition condition (c.target.withRegistry r s) = .error reason →
      walkNode c (.element e children) s = .error (.format c.template reason)

theorem walkNode_condition {e : Element} (tag : e.tag = conditionTag) (c : Context τ)
    (children : List Node) :
    walkNode c (.element e children) =
      openCondition c e >>= fun _ => walk c children >>= fun _ => closeCondition c := by
  have other : ¬(e.tag == variableTag) = true := by
    rw [tag]
    decide
  rw [walkNode, if_neg other, if_pos (by simpa using tag)]

theorem bind_of_error {α β : Type} {x : WalkM τ α} {f : α → WalkM τ β} {s : τ} {reason : CompileError}
    (failed : x s = .error reason) : (x >>= f) s = .error reason := by
  change Reported.bind (x s) _ = _
  rw [failed]
  rfl

theorem refuses_of_none {e : Element} (tag : e.tag = conditionTag)
    (unread : Condition.parse? (Text.trim (e.authored "key")) = none) : Refuses e := by
  intro τ c children s
  rw [walkNode_condition tag]
  by_cases blank : Text.trim (e.authored "key") = ""
  · have missing : requiredKey c e s = .error (.missingKey c.template e.tag) := by
      simp only [requiredKey, blank]
      rfl
    exact ⟨_, bind_of_error (bind_of_error missing), .inl rfl⟩
  · have refused : openCondition c e s =
        .error (.invalidCondition c.template (Text.trim (e.authored "key"))) := by
      unfold openCondition
      rw [bind_of_ok (requiredKey_eq blank s), unread]
      rfl
    exact ⟨_, bind_of_error refused, .inr rfl⟩

theorem takes_of_some {e : Element} (tag : e.tag = conditionTag) {condition : Condition}
    (read : Condition.parse? (Text.trim (e.authored "key")) = some condition) : Takes e condition := by
  intro τ c children s
  have named : Template.Names e condition.key :=
    ⟨(Condition.key_of_parse? read).2, .inr ⟨tag, by rw [read, Option.map_some]⟩⟩
  obtain ⟨r, other, registered, -, again, told, refused⟩ := openCondition_named (c := c) named tag s
  obtain rfl : other = condition := Option.some.inj (again.symm.trans read)
  refine ⟨r, registered, ?_, ?_⟩
  · intro u opened
    rw [walkNode_condition tag, bind_of_ok (told u opened)]
  · intro reason failed
    rw [walkNode_condition tag, bind_of_error (refused reason failed)]

end Walk

namespace Preview

/-- A preview stops at the element, whatever the values. -/
def Refuses (e : Element) : Prop :=
  ∀ (template : String) (values : Values) (children : List Node),
    renderNode template values (.element e children) =
      (.error (.invalidCondition template (e.authored "key")), .element e children)

/-- A preview has the contents of the element if the condition holds, and nothing else. -/
def Takes (e : Element) (condition : Condition) : Prop :=
  ∀ (template : String) (values : Values) (children : List Node),
    (holds condition values = true → renderNode template values (.element e children) =
      ((render template values children).1, .element e (render template values children).2)) ∧
    (holds condition values = false → renderNode template values (.element e children) =
      (.ok "", .element e children))

theorem renderNode_condition {e : Element} (tag : e.tag = conditionTag) (template : String) (values : Values)
    (children : List Node) :
    renderNode template values (.element e children) =
      (Condition.parse? (e.authored "key")).elim
        (.error (.invalidCondition template (e.authored "key")), .element e children) fun condition =>
        if holds condition values then
          ((render template values children).1, .element e (render template values children).2)
        else (.ok "", .element e children) := by
  have other : ¬(e.tag == variableTag) = true := by
    rw [tag]
    decide
  unfold renderNode
  rw [if_neg other, if_pos (by simpa using tag)]
  cases Condition.parse? (e.authored "key") <;> rfl

theorem refuses_of_none {e : Element} (tag : e.tag = conditionTag)
    (unread : Condition.parse? (e.authored "key") = none) : Refuses e := by
  intro template values children
  rw [renderNode_condition tag, unread]
  rfl

theorem takes_of_some {e : Element} (tag : e.tag = conditionTag) {condition : Condition}
    (read : Condition.parse? (e.authored "key") = some condition) : Takes e condition := by
  intro template values children
  rw [renderNode_condition tag, read]
  constructor
  · intro held
    exact if_pos held
  · intro failed
    exact if_neg (by simp [failed])

end Preview

namespace Condition

theorem trimmed_eq_iff (c : Condition) :
    c.trimmed = c ↔ ∀ comparison value, c.comparison = some (comparison, value) → Text.trimEnd value = value := by
  obtain ⟨key, test⟩ := c
  cases test with
  | none => simp [trimmed]
  | some test =>
    obtain ⟨comparison, value⟩ := test
    simp [trimmed]

end Condition

namespace Template

/-- A walk and a preview refuse the same elements as conditions. Of any other they take the same key and the
same comparison, and the walk the value without the blanks at its end: so both take the same condition
exactly if there is no value that ends in a blank. -/
theorem conditions_read {e : Element} (tag : e.tag = conditionTag) :
    (Condition.parse? (e.authored "key") = none ∧ Walk.Refuses e ∧ Preview.Refuses e) ∨
      ∃ walked previewed : Condition, Condition.parse? (e.authored "key") = some previewed ∧
        Walk.Takes e walked ∧ Preview.Takes e previewed ∧ walked.key = previewed.key ∧
        walked.comparison = previewed.comparison.map (fun test => (test.1, Text.trimEnd test.2)) ∧
        (walked = previewed ↔ ∀ comparison value,
          previewed.comparison = some (comparison, value) → Text.trimEnd value = value) := by
  have same := Condition.parse?_trim_eq (e.authored "key")
  cases read : Condition.parse? (e.authored "key") with
  | none =>
    rw [read] at same
    exact .inl ⟨rfl, Walk.refuses_of_none tag same, Preview.refuses_of_none tag read⟩
  | some condition =>
    rw [read] at same
    exact .inr ⟨condition.trimmed, condition, rfl, Walk.takes_of_some tag same,
      Preview.takes_of_some tag read, rfl, rfl, condition.trimmed_eq_iff⟩

/-- Blanks in front of the value are read by both, and so is a second separator. -/
theorem conditions_read_level :
    let e : Element := { tag := conditionTag, attrs := [⟨"key", " level ?!= a?=b"⟩] }
    let condition : Condition := { key := "level", comparison := some (.notEquals, " a?=b") }
    e.tag = conditionTag ∧ Walk.Takes e condition ∧ Preview.Takes e condition := by
  intro e condition
  have tag : e.tag = conditionTag := rfl
  have read : Condition.parse? (e.authored "key") = some condition := by decide
  rcases conditions_read tag with ⟨unread, -⟩ | ⟨walked, previewed, found, taken, shown, -, -, same⟩
  · cases read.symm.trans unread
  · obtain rfl : condition = previewed := Option.some.inj (read.symm.trans found)
    have equal : walked = condition := by
      apply same.mpr
      rintro comparison value ⟨⟩
      decide
    exact ⟨tag, equal ▸ taken, shown⟩

/-- A blank behind the value: the test that is compiled compares with the value, the preview with the value
and the blank. -/
theorem conditions_read_apart :
    let e : Element := { tag := conditionTag, attrs := [⟨"key", "level?=error "⟩] }
    let roots : List Node := [.element e [.text "x"]]
    let t : Template := { id := "card", html := "" }
    Condition.parse? (Text.trim (e.authored "key")) =
        some { key := "level", comparison := some (.equals, "error") } ∧
      Condition.parse? (e.authored "key") =
        some { key := "level", comparison := some (.equals, "error ") } ∧
      (t.compileTo none roots [] .twigEmbed).outcome.toOption =
        some [("twig-embed/card.twig", "<% if $level == \"error\" %>x<% end_if %>")] ∧
      (Preview.render t.id [("level", "error")] roots).1.toOption = some "" := by
  decide +kernel

end Template

end Stencil
