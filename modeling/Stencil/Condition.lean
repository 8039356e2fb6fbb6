import Stencil.Text.Blank
import Stencil.Text.Search

/-! Conditions on a key, as a template writes them: that the key is set, that it has a value, or that it
has another value. -/
namespace Stencil

inductive Comparison where
  | equals
  | notEquals
  deriving DecidableEq, Repr

structure Condition where
  key : String
  comparison : Option (Comparison × String) := none
  deriving DecidableEq, Repr

namespace Condition

/-- The text of the key and the comparison: the first `?!=` divides them, or else the first `?=`. -/
def divide (expression : String) : String × Option (Comparison × String) :=
  match Text.splitOnce? "?!=" expression with
  | some (key, value) => (key, some (.notEquals, value))
  | none =>
    match Text.splitOnce? "?=" expression with
    | some (key, value) => (key, some (.equals, value))
    | none => (expression, none)

/-- The key is trimmed and must not be blank; the value stands as written. -/
def parse? (expression : String) : Option Condition :=
  let (key, comparison) := divide expression
  if (Text.trim key).isEmpty then none else some { key := Text.trim key, comparison }

end Condition

end Stencil
