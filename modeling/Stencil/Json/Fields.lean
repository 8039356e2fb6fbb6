import Stencil.Json.Value

/-! Records inside JSON values. A record is an object, whose members may come in any order and whose
unknown members are ignored, or the array of its fields in their declared order. A tagged record names
its variant in one member, or in the first item of the array. -/
namespace Stencil.Json

inductive Fields where
  | named (members : List (String × Json))
  | positional (items : List Json)

namespace Fields

/-- The value of a member, which must not be given twice; an absent one is `some none`. -/
def lookup? (members : List (String × Json)) (name : String) : Option (Option Json) :=
  match members.filter (·.1 == name) with
  | [] => some none
  | [m] => some (some m.2)
  | _ => none

/-- The values of the named fields in this order; by position, there are exactly as many. -/
def take? (fields : Fields) (names : List String) : Option (List (Option Json)) :=
  match fields with
  | .named members => names.mapM (lookup? members)
  | .positional items => if items.length = names.length then some (items.map some) else none

def isUnit : Fields → Bool
  | .named _ => true
  | .positional items => items.isEmpty

end Fields

def fields? : Json → Option Fields
  | .object members => some (.named members)
  | .array items => some (.positional items)
  | _ => none

/-- The variant that the member `tag` names, and the other fields. -/
def tagged? (tag : String) : Json → Option (String × Fields)
  | .object members =>
    match members.filter (·.1 == tag) with
    | [(_, .string variant)] => some (variant, .named (members.filter (·.1 != tag)))
    | _ => none
  | .array (.string variant :: items) => some (variant, .positional items)
  | _ => none

/-- A value of an enumerated type: its name alone, or an object with that one member. -/
def variant? : Json → Option (String × Option Json)
  | .string name => some (name, none)
  | .object [(name, content)] => some (name, some content)
  | _ => none

def isUnitContent : Option Json → Bool
  | none => true
  | some .null => true
  | _ => false

def strings? (v : Json) : Option (List String) := v.array?.bind fun items => items.mapM string?

end Stencil.Json
