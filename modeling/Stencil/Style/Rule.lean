import Stencil.Text.Blank

/-! The stylesheet tree: rules, at-rules and declarations, with selectors, parameters and values as
text. The printed form indents the body of a rule by two spaces. -/
namespace Stencil.Style

inductive Rule where
  | rule (selector : String) (body : List Rule)
  | atRule (name : String) (params : String) (body : List Rule)
  | decl (prop : String) (value : String)
  deriving Repr, Inhabited

namespace Rule

def selector? : Rule → Option String
  | .rule selector _ => some selector
  | _ => none

def body : Rule → List Rule
  | .rule _ body => body
  | .atRule _ _ body => body
  | .decl _ _ => []

mutual

def beq : Rule → Rule → Bool
  | .rule s b, .rule s' b' => s == s' && beqAll b b'
  | .atRule n p b, .atRule n' p' b' => n == n' && p == p' && beqAll b b'
  | .decl p v, .decl p' v' => p == p' && v == v'
  | _, _ => false

def beqAll : List Rule → List Rule → Bool
  | [], [] => true
  | a :: as, b :: bs => beq a b && beqAll as bs
  | _, _ => false

end

instance : BEq Rule := ⟨beq⟩

mutual

theorem beq_iff_eq (a b : Rule) : beq a b = true ↔ a = b := by
  cases a <;> cases b
  all_goals simp [beq, beqAll_iff_eq, and_assoc]

theorem beqAll_iff_eq (as bs : List Rule) : beqAll as bs = true ↔ as = bs := by
  cases as <;> cases bs
  all_goals simp [beqAll, beq_iff_eq, beqAll_iff_eq]

end

instance : DecidableEq Rule := fun a b => decidable_of_iff _ (beq_iff_eq a b)

/-- Every line of a text indented by two spaces and ended. -/
def indent (s : String) : String := Text.concat ((Text.lines s).map fun l => "  " ++ l ++ "\n")

/-- `@name params`, or the name alone. -/
def atHead (name params : String) : String :=
  if params.isEmpty then "@" ++ name else "@" ++ name ++ " " ++ params

mutual

def render : Rule → String
  | .decl prop value => prop ++ ": " ++ value ++ ";"
  | .rule selector body => selector ++ " \x7b\n" ++ renderBody body ++ "\x7d\n"
  | .atRule name params body =>
    if body.isEmpty then atHead name params ++ ";\n"
    else atHead name params ++ " \x7b\n" ++ renderBody body ++ "\x7d\n"

/-- The items of a body, indented. -/
def renderBody : List Rule → String
  | [] => ""
  | r :: rest => indent r.render ++ renderBody rest

end

/-- A whole sheet. -/
def renderAll (rules : List Rule) : String := Text.concat (rules.map render)

end Rule

end Stencil.Style
