import Stencil.Component.Markup
import Stencil.Proofs.Script
import Stencil.Proofs.Words

/-! Attribute values as component markup is read. A quoted string in markup has no escapes: it goes to the
next quote, and a backslash in it is a backslash. Static values are written with the escapes of a
string in an expression; the two readings agree as long as nothing is escaped. -/
namespace Stencil.Component

open Text (Chars.splitOnce?)

/-- What the value of an attribute comes to, as it stands after the equals sign: a string up to the next
quote, or an expression in braces that gives a string. Anything behind it is none of the value's, and a
string with an ampersand, which can start a character reference, is not read. -/
def markupString? : List Char → Option String
  | '"' :: s =>
    match Chars.splitOnce? ['"'] s with
    | some (content, []) => if '&' ∈ content then none else some (String.ofList content)
    | _ => none
  | '{' :: s =>
    if s.getLast? = some '}' then
      match Script.evaluate? [] (String.ofList s.dropLast) with
      | some (.string value) => some value
      | _ => none
    else none
  | _ => none

def markupAttribute? (name text : String) : Option String :=
  (Text.Chars.after? (" " ++ name ++ "=").toList text.toList).bind markupString?

/-- Characters that stand for themselves in a string of an expression. -/
def IsUnescaped (c : Char) : Prop := c ≠ '"' ∧ c ≠ '\\' ∧ 32 ≤ c.toNat

instance (c : Char) : Decidable (IsUnescaped c) := inferInstanceAs (Decidable (_ ∧ _ ∧ _))

theorem escape_of_isUnescaped {c : Char} (plain : IsUnescaped c) : Json.escape c = [c] := by
  obtain ⟨quote, slash, printed⟩ := plain
  have apart (d : Char) (low : d.toNat < 32) : c ≠ d := by
    rintro rfl
    omega
  unfold Json.escape
  rw [if_neg quote, if_neg slash, if_neg (apart _ (by decide)), if_neg (apart _ (by decide)),
    if_neg (apart _ (by decide)), if_neg (apart _ (by decide)), if_neg (apart _ (by decide)),
    if_neg (by omega)]

theorem escape_of_not_isUnescaped {c : Char} (special : ¬ IsUnescaped c) :
    ∃ d more, Json.escape c = '\\' :: d :: more := by
  unfold Json.escape
  repeat' split
  all_goals first
    | exact ⟨_, _, rfl⟩
    | exact absurd ⟨by assumption, by assumption, by omega⟩ special

section Escapes

variable {s : List Char}

theorem flatMap_escape_eq_iff : s.flatMap Json.escape = s ↔ ∀ c ∈ s, IsUnescaped c := by
  have longer (s : List Char) : s.length ≤ (s.flatMap Json.escape).length := by
    induction s with
    | nil => exact Nat.le_refl _
    | cons c s ih =>
      have here : 1 ≤ (Json.escape c).length := by
        by_cases plain : IsUnescaped c
        · rw [escape_of_isUnescaped plain]
          exact Nat.le_refl _
        · obtain ⟨d, more, special⟩ := escape_of_not_isUnescaped plain
          simp [special]
      rw [List.flatMap_cons, List.length_append, List.length_cons]
      omega
  induction s with
  | nil => simp
  | cons c s ih =>
    rw [List.forall_mem_cons, List.flatMap_cons]
    by_cases plain : IsUnescaped c
    · simp [escape_of_isUnescaped plain, plain, ih]
    · obtain ⟨d, more, special⟩ := escape_of_not_isUnescaped plain
      refine ⟨fun same => ?_, fun both => absurd both.1 plain⟩
      have sizes := congrArg List.length same
      have rest := longer s
      simp only [special, List.length_append, List.length_cons] at sizes
      omega

/-- Quotes and ampersands stand in what is written for them, and nowhere else. -/
theorem mem_escape_iff {c d : Char} (mark : d = '"' ∨ d = '&') : d ∈ Json.escape c ↔ c = d := by
  have controls : ∀ n < 32, '"' ∉ Json.escape (Char.ofNat n) ∧ '&' ∉ Json.escape (Char.ofNat n) := by decide
  by_cases plain : IsUnescaped c
  · rw [escape_of_isUnescaped plain, List.mem_singleton]
    exact eq_comm
  · by_cases control : c.toNat < 32
    · have absent := controls c.toNat control
      rw [Char.ofNat_toNat] at absent
      have other : c ≠ d := by
        rintro rfl
        rcases mark with rfl | rfl <;> revert control <;> decide
      rcases mark with rfl | rfl
      · simp [absent.1, other]
      · simp [absent.2, other]
    · have special : c = '"' ∨ c = '\\' := Decidable.byContradiction fun neither =>
        plain ⟨fun quote => neither (.inl quote), fun slash => neither (.inr slash), by omega⟩
      rcases special with rfl | rfl <;> rcases mark with rfl | rfl <;> decide

theorem mem_flatMap_escape_iff {d : Char} (mark : d = '"' ∨ d = '&') :
    d ∈ s.flatMap Json.escape ↔ d ∈ s := by
  simp [List.mem_flatMap, mem_escape_iff mark]

end Escapes

/-- A quoted string is read as the text it was written for exactly if nothing in it was escaped. -/
theorem markupString?_quote {text : String} (plain : '&' ∉ text.toList) :
    markupString? (Json.quote text).toList = some text ↔ ∀ c ∈ text.toList, IsUnescaped c := by
  have written : (Json.quote text).toList = '"' :: (text.toList.flatMap Json.escape ++ ['"']) := by
    simp [Json.quote]
  rw [written, markupString?]
  by_cases quote : '"' ∈ text.toList
  · -- The first quote is one of the text: what follows it keeps the value from ending there.
    have inside := (mem_flatMap_escape_iff (.inl rfl)).mpr quote
    obtain ⟨before, after, split, first⟩ := List.eq_append_cons_of_mem inside
    rw [split, List.append_assoc, List.cons_append, Text.Chars.splitOnce?_singleton '"' _ _ first]
    have special : ¬ ∀ c ∈ text.toList, IsUnescaped c := fun all => (all '"' quote).1 rfl
    simp [special]
  · have absent : '"' ∉ text.toList.flatMap Json.escape := fun inside =>
      quote ((mem_flatMap_escape_iff (.inl rfl)).mp inside)
    have bare : '&' ∉ text.toList.flatMap Json.escape := fun inside =>
      plain ((mem_flatMap_escape_iff (.inr rfl)).mp inside)
    rw [Text.Chars.splitOnce?_singleton '"' _ [] absent, ← flatMap_escape_eq_iff]
    simp only [bare, if_false, Option.some.injEq]
    exact ⟨fun same => String.ofList_injective (by rw [same, String.ofList_toList]),
      fun same => by rw [same, String.ofList_toList]⟩

/-- A static text is what its attribute comes to in markup exactly if it has no quote, no backslash and no
control character. -/
theorem static_text_read_iff (a : Attribute) (static : a.isStatic = true) (string : a.type = .string)
    (other : a.name ≠ "style") (plain : '&' ∉ a.text.toList) :
    markupAttribute? (propName a.name) (renderAttribute a) = some a.text ↔
      ∀ c ∈ a.text.toList, IsUnescaped c := by
  have written : renderAttribute a = " " ++ propName a.name ++ "=" ++ Json.quote a.text := by
    simp [renderAttribute, staticValue, static, string, other]
  rw [markupAttribute?, written, String.toList_append (t := Json.quote a.text), Text.Chars.after?_append,
    Option.bind_some]
  exact markupString?_quote plain

def titled (text : String) : Attribute where
  name := "title"
  text := text
  type := .string
  bindings := []
  omittedIfEmpty := false

/-- Braces, single quotes and letters beyond ASCII stand for themselves. -/
theorem static_text_read_title :
    (titled "\x7bx\x7d isn't é").isStatic = true ∧ (titled "\x7bx\x7d isn't é").type = .string ∧
      '&' ∉ "\x7bx\x7d isn't é".toList ∧
      markupAttribute? "title" (renderAttribute (titled "\x7bx\x7d isn't é")) = some "\x7bx\x7d isn't é" := by
  have all : "\x7bx\x7d isn't é".toList.all (fun c => decide (IsUnescaped c)) = true := by decide
  refine ⟨rfl, rfl, by decide, ?_⟩
  exact (static_text_read_iff (titled "\x7bx\x7d isn't é") rfl rfl (by decide) (by decide)).mpr fun c member =>
    of_decide_eq_true (List.all_eq_true.mp all c member)

/-- A quote ends the value early, and a backslash or a line end is read as the escape written for it. -/
theorem static_text_misread :
    renderAttribute (titled "say \"hi\"") = " title=\"say \\\"hi\\\"\"" ∧
      markupAttribute? "title" (renderAttribute (titled "say \"hi\"")) = none ∧
      markupAttribute? "title" (renderAttribute (titled "a\\b")) = some "a\\\\b" ∧
      markupAttribute? "title" (renderAttribute (titled "a\nb")) = some "a\\nb" := by
  decide

end Stencil.Component
