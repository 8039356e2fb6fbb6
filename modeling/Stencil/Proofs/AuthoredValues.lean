import Stencil.Proofs.GuardedElement
import Stencil.Proofs.RemoteElement

/-! The value that an author gave an attribute. Before an attribute changes for the first time its value is
noted down, and nothing is ever noted down again under that name; so however an element is changed, and
changed back, the compiler goes on to read what was written. -/
namespace Stencil.Markup

namespace Element

variable {e e' e'' : Element} {name : String}

/-- The first value of an attribute that is known: the one noted down, or else the present one. -/
def first? (e : Element) (name : String) : Option String := (e.pristine? name).or (e.get? name)

theorem authored_of_first? {value : String} (first : e.first? name = some value) (filled : value ≠ "") :
    e.authored name = value := by
  unfold first? at first
  unfold authored
  cases noted : e.pristine? name with
  | none =>
    rw [noted, Option.none_or] at first
    simp [first]
  | some pristine =>
    rw [noted, Option.some_or, Option.some.injEq] at first
    subst first
    simp [filled]

@[simp] theorem attrs_remember (e : Element) (name : String) : (e.remember name).attrs = e.attrs := by
  unfold remember
  split <;> rfl

@[simp] theorem get?_remember (e : Element) (name other : String) :
    (e.remember name).get? other = e.get? other := by
  rw [get?, attrs_remember, get?]

theorem get?_put (e : Element) (name value other : String) :
    (e.put name value).get? other = if other = name then some value else e.get? other := by
  by_cases same : other = name
  · rw [if_pos same, same, get?_put_self]
  · rw [if_neg same]
    exact Attr.find?_put_of_ne same value

theorem get?_erase_of_ne {other : String} (apart : other ≠ name) :
    (e.erase name).get? other = e.get? other :=
  Attr.find?_erase_of_ne apart

/-- After it is remembered, the first value of an attribute is noted down. -/
theorem pristine?_remember_self (e : Element) (name : String) :
    (e.remember name).pristine? name = e.first? name := by
  unfold first?
  cases noted : e.pristine? name with
  | some value =>
    rw [remember_of_pristine (by simp [noted])]
    exact noted
  | none =>
    cases present : e.get? name with
    | none => simp [remember, noted, present]
    | some value =>
      have grown : (e.remember name).pristine = e.pristine ++ [⟨name, value⟩] := by
        simp [remember, noted, present]
      have absent : Attr.find? e.pristine name = none := noted
      rw [pristine?, grown, Attr.find?_append, absent]
      exact Attr.find?_cons_self ⟨name, value⟩ []

theorem pristine?_remember_of_ne {other : String} (apart : other ≠ name) :
    (e.remember name).pristine? other = e.pristine? other := by
  unfold remember
  split
  · rename_i value _ _
    have none : Attr.find? [⟨name, value⟩] other = none := by simp [Attr.find?, apart.symm]
    rw [pristine?, Attr.find?_append, none, Option.or_none]
    rfl
  · rfl

/-- What every change of an element keeps. -/
structure Keeps (e e' : Element) : Prop where
  distinct : (e.attrs.map (·.name)).Nodup → (e'.attrs.map (·.name)).Nodup
  /-- What is noted down stays so. -/
  noted : ∀ name value, e.pristine? name = some value → e'.pristine? name = some value
  first : ∀ name value, e.first? name = some value → e'.first? name = some value

theorem Keeps.refl (e : Element) : Keeps e e := ⟨id, fun _ _ => id, fun _ _ => id⟩

theorem Keeps.trans (before : Keeps e e') (after : Keeps e' e'') : Keeps e e'' where
  distinct := after.distinct ∘ before.distinct
  noted name value kept := after.noted name value (before.noted name value kept)
  first name value kept := after.first name value (before.first name value kept)

/-- An attribute may change in any way once its value is noted down, if the others stay. -/
theorem keeps_of_remembered (name : String) (pristine : e'.pristine = (e.remember name).pristine)
    (others : ∀ other, other ≠ name → e'.get? other = e.get? other)
    (distinct : (e.attrs.map (·.name)).Nodup → (e'.attrs.map (·.name)).Nodup) : Keeps e e' := by
  have noted : ∀ other, e'.pristine? other = (e.remember name).pristine? other := by
    intro other
    rw [pristine?, pristine, pristine?]
  refine ⟨distinct, fun other value kept => ?_, fun other value kept => ?_⟩
  · rw [noted]
    by_cases same : other = name
    · rw [same, pristine?_remember_self, first?, ← same, kept, Option.some_or]
    · rw [pristine?_remember_of_ne same, kept]
  · by_cases same : other = name
    · subst same
      rw [first?, noted, pristine?_remember_self, kept, Option.some_or]
    · rw [first?, noted, pristine?_remember_of_ne same, others other same]
      exact kept

theorem keeps_put (e : Element) (name value : String) : Keeps e ((e.remember name).put name value) := by
  refine keeps_of_remembered name rfl (fun other apart => ?_) fun distinct => ?_
  · rw [get?_put, if_neg apart, get?_remember]
  · rw [put, attrs_remember]
    exact Attr.nodup_put distinct name value

theorem keeps_erase (e : Element) (name : String) : Keeps e ((e.remember name).erase name) := by
  refine keeps_of_remembered name rfl (fun other apart => ?_) fun distinct => ?_
  · rw [get?_erase_of_ne apart, get?_remember]
  · rw [erase, attrs_remember]
    exact Attr.nodup_erase distinct name

theorem keeps_addClass (e : Element) (word : String) : Keeps e (e.addClass word).2 := by
  unfold addClass
  split
  · exact .refl e
  · exact keeps_put e "class" _

theorem keeps_removeClass (e : Element) (word : String) : Keeps e (e.removeClass word).2 := by
  unfold removeClass
  split
  · exact keeps_put e "class" _
  · exact .refl e

theorem keeps_applyUndo (e : Element) (undo : Undo) : Keeps e (e.applyUndo undo) := by
  cases undo with
  | restore name value => exact keeps_put e name value
  | remove name => exact keeps_erase e name
  | addClass word => exact keeps_addClass e word
  | removeClass word => exact keeps_removeClass e word
  | nothing => exact .refl e

end Element

namespace Call

open Element (Keeps)

/-- Giving an answer changes nothing more. -/
theorem answered_state {σ α : Type} (x : AccessM σ α) (answer : α → Answer) (s : σ) :
    ((x >>= fun a => pure (answer a)) s).2 = (x s).2 := by
  rw [bind_apply]
  rcases x s with ⟨_ | _, t⟩ <;> rfl

theorem keeps_total {α : Type} {step : Element → α × Element} {e : Element} (keeps : Keeps e (step e).2) :
    Keeps e (Access.total step e).2 := keeps

/-- One call, whatever its arguments. -/
theorem keeps_run (call : Call) (e : Element) : Keeps e (call.run Access.ofElement e).2 := by
  cases call with
  | tagName | attributeNames | get | getPristine => exact .refl e
  | setAttribute name value =>
    rw [run, answered_state]
    exact keeps_total (e.keeps_put name value)
  | removeAttribute name =>
    rw [run, answered_state]
    exact keeps_total (e.keeps_erase name)
  | addClass word =>
    rw [run, answered_state]
    exact keeps_total (e.keeps_addClass word)
  | removeClass word =>
    rw [run, answered_state]
    exact keeps_total (e.keeps_removeClass word)
  | applyUndo undo =>
    rw [run, answered_state, Scoped.applyUndo_ofElement]
    exact e.keeps_applyUndo undo

theorem keeps_runAll (calls : List Call) (e : Element) : Keeps e (runAll Access.ofElement calls e).2 := by
  induction calls generalizing e with
  | nil => exact .refl e
  | cons call rest ih => exact (call.keeps_run e).trans (ih _)

theorem runAll_append {σ : Type} (a : Access σ) (calls more : List Call) (s : σ) :
    (runAll a (calls ++ more) s).2 = (runAll a more (runAll a calls s).2).2 := by
  induction calls generalizing s with
  | nil => rfl
  | cons call rest ih => exact ih _

end Call

/-- The compiler always sees what was authored. After any calls on an element that is as it was written, and
any further calls: no name comes twice, a value that is noted down stays, and an attribute that was there
with a value other than the empty one is read as it was, also when it was overwritten or taken off. -/
theorem authored_value_stays {e : Element} (distinct : (e.attrs.map (·.name)).Nodup)
    (untouched : e.pristine = []) (calls more : List Call) :
    let now := (Call.runAll Access.ofElement calls e).2
    let later := (Call.runAll Access.ofElement (calls ++ more) e).2
    (now.attrs.map (·.name)).Nodup ∧
      (∀ name value, now.pristine? name = some value → later.pristine? name = some value) ∧
      ∀ name value, e.get? name = some value → value ≠ "" →
        Access.ofElement.read name now = (.ok value, now) := by
  intro now later
  have kept : e.Keeps now := Call.keeps_runAll calls e
  refine ⟨kept.distinct distinct, fun name value noted => ?_, fun name value present filled => ?_⟩
  · have further : now.Keeps later := by
      rw [show later = (Call.runAll Access.ofElement more now).2 from Call.runAll_append ..]
      exact Call.keeps_runAll more now
    exact further.noted name value noted
  · have first : e.first? name = some value := by
      rw [Element.first?, Element.pristine?, untouched]
      exact present
    rw [Attribute.read_ofElement, Element.authored_of_first? (kept.first name value first) filled]

/-- A field of which the value is overwritten and the class is taken off and built anew. -/
theorem authored_value_stays_field :
    let field : Element := { tag := "input", attrs := [⟨"class", "field"⟩, ⟨"value", "17"⟩] }
    let calls : List Call := [.setAttribute "value" "42", .removeAttribute "class",
      .applyUndo (.addClass "wide"), .setAttribute "value" ""]
    let now := (Call.runAll Access.ofElement calls field).2
    now.get? "value" = some "" ∧ now.get? "class" = some "wide" ∧
      Access.ofElement.read "value" now = (.ok "17", now) ∧
      Access.ofElement.read "class" now = (.ok "field", now) := by
  intro field calls now
  obtain ⟨-, -, read⟩ := authored_value_stays (e := field) (by decide) rfl calls []
  exact ⟨by decide +kernel, by decide +kernel, read "value" "17" rfl (by decide),
    read "class" "field" rfl (by decide)⟩

end Stencil.Markup
