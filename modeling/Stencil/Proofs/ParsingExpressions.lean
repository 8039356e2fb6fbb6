import Stencil.Text.Search

/-! Parsing expressions. A choice goes on to its second part only where the first fails, a repetition
takes as much as it can and gives nothing back, and a test ahead takes nothing. So an expression has one
outcome on a text at most. -/
namespace Stencil.Peg

open Text.Chars (after?)

variable {ρ : Type}

/-- Expressions over the rules `ρ`. -/
inductive Expr (ρ : Type) where
  | literal (text : List Char)
  | any
  /-- Nothing, at the start of the whole text. -/
  | start
  | rule (r : ρ)
  | seq (first second : Expr ρ)
  | choice (first second : Expr ρ)
  | star (e : Expr ρ)
  /-- Nothing, where the expression fails. -/
  | absent (e : Expr ρ)

namespace Expr

def plus (e : Expr ρ) : Expr ρ := .seq e (.star e)

def optional (e : Expr ρ) : Expr ρ := .choice e (.literal [])

/-- All characters before the next place where `stop` succeeds. -/
def upTo (stop : Expr ρ) : Expr ρ := .star (.seq (.absent stop) .any)

end Expr

structure Grammar (ρ : Type) where
  body : ρ → Expr ρ
  /-- An atomic rule does not show its parts. -/
  isAtomic : ρ → Bool

/-- What a rule took, and the rules that took its parts. -/
inductive ParseTree (ρ : Type) where
  | node (rule : ρ) (text : List Char) (parts : List (ParseTree ρ))

def ParseTree.text : ParseTree ρ → List Char
  | .node _ text _ => text

/-- The trees of the rules that succeeded and what is left of the text, or a failure. -/
abbrev Outcome (ρ : Type) := Option (List (ParseTree ρ) × List Char)

/-- The outcome of an expression on what is left of a whole text. -/
inductive Derives (g : Grammar ρ) (whole : List Char) : Expr ρ → List Char → Outcome ρ → Prop where
  | literal {text s rest} : after? text s = some rest → Derives g whole (.literal text) s (some ([], rest))
  | literal_fails {text s} : after? text s = none → Derives g whole (.literal text) s none
  | any {c s} : Derives g whole .any (c :: s) (some ([], s))
  | any_fails : Derives g whole .any [] none
  | start : Derives g whole .start whole (some ([], whole))
  | start_fails {s} : s ≠ whole → Derives g whole .start s none
  | rule {r s text rest parts} : Derives g whole (g.body r) s (some (parts, rest)) → s = text ++ rest →
      Derives g whole (.rule r) s (some ([.node r text (if g.isAtomic r then [] else parts)], rest))
  | rule_fails {r s} : Derives g whole (g.body r) s none → Derives g whole (.rule r) s none
  | seq {a b s ts middle us rest} : Derives g whole a s (some (ts, middle)) →
      Derives g whole b middle (some (us, rest)) → Derives g whole (.seq a b) s (some (ts ++ us, rest))
  | seq_fails_first {a b s} : Derives g whole a s none → Derives g whole (.seq a b) s none
  | seq_fails_second {a b s ts middle} : Derives g whole a s (some (ts, middle)) →
      Derives g whole b middle none → Derives g whole (.seq a b) s none
  | choice_first {a b s found} : Derives g whole a s (some found) →
      Derives g whole (.choice a b) s (some found)
  | choice_second {a b s o} : Derives g whole a s none → Derives g whole b s o →
      Derives g whole (.choice a b) s o
  | star_stops {e s} : Derives g whole e s none → Derives g whole (.star e) s (some ([], s))
  | star_goes {e s ts middle us rest} : Derives g whole e s (some (ts, middle)) →
      Derives g whole (.star e) middle (some (us, rest)) → Derives g whole (.star e) s (some (ts ++ us, rest))
  | absent {e s} : Derives g whole e s none → Derives g whole (.absent e) s (some ([], s))
  | absent_fails {e s found} : Derives g whole e s (some found) → Derives g whole (.absent e) s none

variable {g : Grammar ρ} {whole s : List Char} {e : Expr ρ}

/-- Nothing but this outcome is derived. -/
def Only (g : Grammar ρ) (whole : List Char) (e : Expr ρ) (s : List Char) (o : Outcome ρ) : Prop :=
  ∀ o', Derives g whole e s o' → o = o'

section Forms

variable {a b : Expr ρ} {o : Outcome ρ} {ts : List (ParseTree ρ)} {middle : List Char}

theorem only_literal {text : List Char} {rest? : Option (List Char)} (known : after? text s = rest?) :
    Only g whole (.literal text) s (rest?.map fun rest => ([], rest)) := by
  intro o' derived
  cases derived with
  | literal found => rw [← known, found]; rfl
  | literal_fails missing => rw [← known, missing]; rfl

theorem only_start : Only g whole .start whole (some ([], whole)) := by
  intro o' derived
  cases derived with
  | start => rfl
  | start_fails elsewhere => exact absurd rfl elsewhere

theorem only_start_of_ne (elsewhere : s ≠ whole) : Only g whole .start s none := by
  intro o' derived
  cases derived with
  | start => exact absurd rfl elsewhere
  | start_fails _ => rfl

theorem only_rule {r : ρ} {text rest : List Char} {parts : List (ParseTree ρ)}
    (body : Only g whole (g.body r) s (some (parts, rest))) (split : s = text ++ rest) :
    Only g whole (.rule r) s (some ([.node r text (if g.isAtomic r then [] else parts)], rest)) := by
  intro o' derived
  cases derived with
  | rule inner again =>
    cases body _ inner
    rw [List.append_cancel_right (split.symm.trans again)]
  | rule_fails inner => cases body _ inner

theorem only_rule_of_fails {r : ρ} (body : Only g whole (g.body r) s none) : Only g whole (.rule r) s none := by
  intro o' derived
  cases derived with
  | rule inner _ => cases body _ inner
  | rule_fails _ => rfl

theorem only_seq (first : Only g whole a s (some (ts, middle))) (second : Only g whole b middle o) :
    Only g whole (.seq a b) s (o.map fun found => (ts ++ found.1, found.2)) := by
  intro o' derived
  cases derived with
  | seq left right =>
    cases first _ left
    rw [second _ right]
    rfl
  | seq_fails_first left => cases first _ left
  | seq_fails_second left right =>
    cases first _ left
    rw [second _ right]
    rfl

theorem only_seq_of_fails (first : Only g whole a s none) : Only g whole (.seq a b) s none := by
  intro o' derived
  cases derived with
  | seq left _ => cases first _ left
  | seq_fails_first _ => rfl
  | seq_fails_second left _ => cases first _ left

theorem only_choice {found : List (ParseTree ρ) × List Char} (first : Only g whole a s (some found)) :
    Only g whole (.choice a b) s (some found) := by
  intro o' derived
  cases derived with
  | choice_first left => exact first _ left
  | choice_second left _ => cases first _ left

theorem only_choice_of_fails (first : Only g whole a s none) (second : Only g whole b s o) :
    Only g whole (.choice a b) s o := by
  intro o' derived
  cases derived with
  | choice_first left => cases first _ left
  | choice_second _ right => exact second _ right

theorem only_star {us : List (ParseTree ρ)} {rest : List Char} (step : Only g whole e s (some (ts, middle)))
    (later : Only g whole (.star e) middle (some (us, rest))) :
    Only g whole (.star e) s (some (ts ++ us, rest)) := by
  intro o' derived
  cases derived with
  | star_stops inner => cases step _ inner
  | star_goes inner others =>
    cases step _ inner
    cases later _ others
    rfl

theorem only_star_of_fails (step : Only g whole e s none) : Only g whole (.star e) s (some ([], s)) := by
  intro o' derived
  cases derived with
  | star_stops _ => rfl
  | star_goes inner _ => cases step _ inner

theorem only_absent (inner : Only g whole e s o) :
    Only g whole (.absent e) s (if o.isNone then some ([], s) else none) := by
  intro o' derived
  cases derived with
  | absent fails => rw [inner _ fails]; rfl
  | absent_fails found => rw [inner _ found]; rfl

end Forms

theorem Derives.only {o : Outcome ρ} (derived : Derives g whole e s o) : Only g whole e s o := by
  induction derived with
  | literal known | literal_fails known => exact only_literal known
  | any | any_fails =>
    intro o' derived
    cases derived
    rfl
  | start => exact only_start
  | start_fails elsewhere => exact only_start_of_ne elsewhere
  | rule _ split ih => exact only_rule ih split
  | rule_fails _ ih => exact only_rule_of_fails ih
  | seq _ _ ih ih' | seq_fails_second _ _ ih ih' => exact only_seq ih ih'
  | seq_fails_first _ ih => exact only_seq_of_fails ih
  | choice_first _ ih => exact only_choice ih
  | choice_second _ _ ih ih' => exact only_choice_of_fails ih ih'
  | star_stops _ ih => exact only_star_of_fails ih
  | star_goes _ _ ih ih' => exact only_star ih ih'
  | absent _ ih | absent_fails _ ih => exact only_absent ih

theorem Derives.unique {o o' : Outcome ρ} (first : Derives g whole e s o) (second : Derives g whole e s o') :
    o = o' :=
  first.only o' second

theorem derives_optional {ts : List (ParseTree ρ)} {rest : List Char}
    (found : Derives g whole e s (some (ts, rest))) : Derives g whole e.optional s (some (ts, rest)) :=
  .choice_first found

theorem derives_optional_of_fails (missing : Derives g whole e s none) :
    Derives g whole e.optional s (some ([], s)) :=
  .choice_second missing (.literal rfl)

/-- All is taken up to the place where `stop` succeeds, or up to the end. -/
theorem derives_upTo {stop : Expr ρ} {passed rest : List Char}
    (passes : ∀ part, part ≠ [] → part <:+ passed → Derives g whole stop (part ++ rest) none)
    (ends : (∃ found, Derives g whole stop rest (some found)) ∨ rest = [] ∧ Derives g whole stop [] none) :
    Derives g whole stop.upTo (passed ++ rest) (some ([], rest)) := by
  induction passed with
  | nil =>
    refine .star_stops ?_
    rcases ends with ⟨found, stops⟩ | ⟨rfl, missing⟩
    · exact .seq_fails_first (.absent_fails stops)
    · exact .seq_fails_second (.absent missing) .any_fails
  | cons c passed ih =>
    have here := passes (c :: passed) (by simp) List.suffix_rfl
    have later := ih fun part nonempty inside =>
      passes part nonempty (inside.trans (List.suffix_cons ..))
    exact .star_goes (.seq (.absent here) .any) later

end Stencil.Peg
