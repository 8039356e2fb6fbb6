import Stencil.Proofs.StyledConditions
import Stencil.Template.Walk

/-! Which classes an element can have is asked twice: the rules of a sheet are kept for the element by the
words that its class attribute can ever hold, and a kept rule is written under the terms by which the
bindings of the attribute add its classes. For a compiled attribute the two agree, so no selector that is
kept is left out for want of a key. -/
namespace Stencil

namespace Component

theorem isSome_terms? {a : Attribute}
    (literal : ∀ b ∈ a.bindings, b.ifTrue.isSome = true → b.type = .boolean) (classes : List String) :
    (terms? classes (some a)).isSome = true ↔ ∀ c ∈ classes, c ∈ a.tokens := by
  have each (c : String) : c ∈ a.tokens ↔
      (c ∉ Text.words a.text → ∃ t, a.bindings.findSome? (termFor? c) = some t) := by
    rw [mem_tokens_iff literal, findSome?_termFor?, Decidable.or_iff_not_imp_left]
  simp only [terms?, Option.isSome_map, isSome_mapM, List.mem_filter, each]
  simp

end Component

namespace Style.Candidate

theorem couldMatch_iff (e : Candidate) (c : Compound) : e.couldMatch c = true ↔
    ((∃ tag ∈ c.tag, tag ≠ "*") ∨ c.classes ≠ [] ∨ c.ids ≠ []) ∧
      (∀ tag ∈ c.tag, tag ≠ "*" → Text.sameIgnoringAsciiCase tag e.tag = true) ∧
      (∀ name ∈ c.classes, name ∈ e.classes) ∧ ∀ id ∈ c.ids, id ∈ e.ids := by
  have member (names known : List String) :
      names.all known.contains = true ↔ ∀ name ∈ names, name ∈ known := by simp
  simp only [couldMatch, Bool.and_eq_true, member, and_assoc]
  cases c.tag with
  | none => simp
  | some tag =>
    by_cases any : tag = "*"
    · simp [any]
    · simp [any]

end Style.Candidate

namespace Component

open Style (Compound Selector)

variable {full : List Attribute} {a : Attribute}

theorem couldMatch_candidate (literal : ∀ b ∈ a.bindings, b.ifTrue.isSome = true → b.type = .boolean)
    (found : Attribute.find? full "class" = some a) (e : Markup.Element) (c : Compound) :
    (Walk.candidate e full).couldMatch c = true ↔
      ((∃ tag ∈ c.tag, tag ≠ "*") ∨ c.classes ≠ [] ∨ c.ids ≠ []) ∧
        (∀ tag ∈ c.tag, tag ≠ "*" → Text.sameIgnoringAsciiCase tag (Text.toLowerAscii e.tag) = true) ∧
        (terms? c.classes (some a)).isSome = true ∧ ∀ id ∈ c.ids, id ∈ Text.words (e.authored "id") := by
  have known : (Walk.candidate e full).classes = a.tokens := by simp [Walk.candidate, found]
  rw [Style.Candidate.couldMatch_iff, known, isSome_terms? literal]
  rfl

/-- The classes that have terms are those that the attribute can have, and having terms is all that the
candidate of its element asks of them. So a selector that is kept for the element has terms. -/
theorem possible_classes_agree {σ : Type} {access : Markup.Access σ} {tag template : String}
    {s after : Attribute.Compiling σ}
    (compiled : Attribute.compile access tag template s = (.ok full, after))
    (found : Attribute.find? full "class" = some a) (e : Markup.Element) :
    (∀ classes, (terms? classes (some a)).isSome = true ↔ ∀ c ∈ classes, c ∈ a.tokens) ∧
    (∀ c : Compound, (Walk.candidate e full).couldMatch c = true ↔
      ((∃ tag ∈ c.tag, tag ≠ "*") ∨ c.classes ≠ [] ∨ c.ids ≠ []) ∧
        (∀ tag ∈ c.tag, tag ≠ "*" → Text.sameIgnoringAsciiCase tag (Text.toLowerAscii e.tag) = true) ∧
        (terms? c.classes (some a)).isSome = true ∧ ∀ id ∈ c.ids, id ∈ Text.words (e.authored "id")) ∧
    ∀ list, ∀ text ∈ (Walk.candidate e full).matching list,
      (terms? (Selector.parse text).subject.classes (some a)).isSome = true := by
  have literal := (Attribute.typed_compile compiled a (List.mem_of_find?_eq_some found)).literal
  refine ⟨isSome_terms? literal, couldMatch_candidate literal found e, ?_⟩
  intro list text kept
  have matched := (List.mem_filter.mp kept).2
  exact ((couldMatch_candidate literal found e _).mp matched).2.2.1

/-- A card whose classes come from its text, a choice and a plain marker. -/
theorem possible_classes_agree_card :
    let e : Markup.Element := { tag := "p", attrs :=
      [⟨"class", "card {{size: big x as l | small as s}} {{more}}"⟩] }
    let a : Attribute :=
      { name := "class", text := "card", type := .string, omittedIfEmpty := false
        bindings := [{ key := "size", optional := false, type := .enumeration [⟨"big x", "l"⟩, ⟨"small", "s"⟩] },
          { key := "more", optional := false, type := .string }] }
    let done := Attribute.compile Markup.Access.ofElement "p" "t" { node := e, registry := .empty }
    done.1 = .ok [a] ∧ (terms? ["card", "x"] (some a)).isSome = true ∧
      (Walk.candidate e [a]).couldMatch { classes := ["card", "x"] } = true ∧
      (Walk.candidate e [a]).couldMatch { classes := ["card", "more"] } = false := by
  intro e a done
  have compiled : done.1 = .ok [a] := ok_of_toOption (by decide +kernel)
  have ended : done = (.ok [a], done.2) := Prod.ext compiled rfl
  obtain ⟨possible, asked, -⟩ := possible_classes_agree ended (a := a) rfl e
  have terms : (terms? ["card", "x"] (some a)).isSome = true := (possible _).mpr (by decide +kernel)
  have none : ¬ (terms? ["card", "more"] (some a)).isSome = true := fun some =>
    absurd ((possible _).mp some) (by decide +kernel)
  refine ⟨compiled, terms, (asked _).mpr ⟨by simp, by simp, terms, by simp⟩, ?_⟩
  exact Bool.eq_false_iff.mpr fun matched => none ((asked _).mp matched).2.2.1

end Component

end Stencil
