import Stencil.Condition
import Stencil.Proofs.Words

/-! Conditions and the blanks around them. An expression is divided at the same place whether it is trimmed
before or not. Blanks in front of it are blanks in front of its key, which is trimmed in any case; blanks
behind it are blanks behind its value, if it has one, and a value stands as it is written. -/
namespace Stencil

namespace Text

def trimEnd (s : String) : String := String.ofList (Chars.trimRight s.toList)

namespace Chars

/-- The last part of a trimmed text has no blanks at its end. -/
theorem trimRight_of_trim_append (front back : List Char) (trimmed : trim (front ++ back) = front ++ back) :
    trimRight back = back := by
  rcases back.eq_nil_or_concat with rfl | ⟨start, last, rfl⟩
  · rfl
  · have solid : isBlank last = false := by
      apply isBlank_of_trim_eq_last (s := front ++ start)
      simpa using trimmed
    simp [trimRight, solid]

theorem not_mem_of_solid {sep : List Char} (solid : sep.all (!isBlank ·) = true) {c : Char}
    (blank : isBlank c = true) : c ∉ sep := by
  intro member
  have here := List.all_eq_true.mp solid c member
  simp [blank] at here

/-- A separator without blanks divides a text where it divides the trimmed text. The parts differ in the
blanks on the outside. -/
theorem splitOnce?_trim {p : Char} {sep : List Char} (solid : (p :: sep).all (!isBlank ·) = true)
    (s : List Char) :
    (splitOnce? (p :: sep) (trim s)).map (fun parts => (trim parts.1, parts.2)) =
      (splitOnce? (p :: sep) s).map fun parts => (trim parts.1, trimRight parts.2) := by
  obtain ⟨before, after, split, front, back⟩ := trim_split s
  have absent : p ∉ before := fun member =>
    not_mem_of_solid solid (front p member) (List.mem_cons_self ..)
  have apart : ∀ c ∈ after, c ∉ p :: sep := fun c member => not_mem_of_solid solid (back c member)
  have whole := congrArg (splitOnce? (p :: sep)) split
  rw [List.append_assoc, splitOnce?_append_left p sep before _ absent,
    splitOnce?_append_right p sep _ after apart] at whole
  rw [whole]
  cases found : splitOnce? (p :: sep) (trim s) with
  | none => rfl
  | some parts =>
    have kept : trimRight parts.2 = parts.2 := by
      apply trimRight_of_trim_append (parts.1 ++ (p :: sep))
      rw [← eq_of_splitOnce? found]
      exact trim_trim s
    simp only [Option.map_some, trim_blank_append before _ front, trimRight_append_blank _ after back, kept]

end Chars

theorem splitOnce?_trim (sep : String) {p : Char} {rest : List Char} (spelled : sep.toList = p :: rest)
    (solid : (p :: rest).all (!isBlank ·) = true) (s : String) :
    (splitOnce? sep (trim s)).map (fun parts => (trim parts.1, parts.2)) =
      (splitOnce? sep s).map fun parts => (trim parts.1, trimEnd parts.2) := by
  have chars := congrArg (Option.map fun parts => (String.ofList parts.1, String.ofList parts.2))
    (Chars.splitOnce?_trim solid s.toList)
  simpa [splitOnce?, trim, trimEnd, spelled, Function.comp_def] using chars

end Text

namespace Condition

def trimmed (c : Condition) : Condition :=
  { c with comparison := c.comparison.map fun test => (test.1, Text.trimEnd test.2) }

/-- The parts of a trimmed expression: the key, trimmed, is the same, and the value has no blanks at its
end. -/
theorem divide_trim (s : String) :
    Text.trim (divide (Text.trim s)).1 = Text.trim (divide s).1 ∧
      (divide (Text.trim s)).2 = (divide s).2.map fun test => (test.1, Text.trimEnd test.2) := by
  have differs := Text.splitOnce?_trim "?!=" rfl rfl s
  have equals := Text.splitOnce?_trim "?=" rfl rfl s
  unfold divide
  cases first : Text.splitOnce? "?!=" s <;> cases second : Text.splitOnce? "?!=" (Text.trim s) <;>
    simp only [first, second, Option.map_none, Option.map_some, reduceCtorEq, Option.some.injEq,
      Prod.mk.injEq] at differs
  · cases third : Text.splitOnce? "?=" s <;> cases fourth : Text.splitOnce? "?=" (Text.trim s) <;>
      simp only [third, fourth, Option.map_none, Option.map_some, reduceCtorEq, Option.some.injEq,
        Prod.mk.injEq] at equals
    · exact ⟨Text.trim_trim s, rfl⟩
    · exact ⟨equals.1, by simp [equals.2]⟩
  · exact ⟨differs.1, by simp [differs.2]⟩

/-- A trimmed expression is the same condition, without the blanks at the end of its value. -/
theorem parse?_trim_eq (s : String) : parse? (Text.trim s) = (parse? s).map trimmed := by
  obtain ⟨key, comparison⟩ := divide_trim s
  unfold parse?
  dsimp only
  rw [key, comparison]
  split <;> rfl

theorem parse?_trim (s : String) :
    (parse? (Text.trim s)).map (·.key) = (parse? s).map (·.key) := by
  rw [parse?_trim_eq, Option.map_map]
  rfl

theorem key_of_parse? {s : String} {c : Condition} (parsed : parse? s = some c) :
    c.key = Text.trim (divide s).1 ∧ c.key ≠ "" := by
  unfold parse? at parsed
  dsimp only at parsed
  split at parsed
  · cases parsed
  · rename_i nonempty
    rw [← Option.some.inj parsed]
    exact ⟨rfl, fun empty => nonempty (String.isEmpty_iff.mpr empty)⟩

end Condition

end Stencil
