import Stencil.Style.Selector

/-! Which rules of a sheet can style an element, given every class and id it may carry. A rule keeps
only the selectors that apply, an at-rule is kept when something inside it is. -/
namespace Stencil.Style

/-- What an element may look like when the template is rendered. -/
structure Candidate where
  tag : String
  classes : List String := []
  ids : List String := []
  deriving DecidableEq, Repr

namespace Candidate

/-- Whether the element can be the subject. A compound without tag, class and id never matches. -/
def couldMatch (e : Candidate) (c : Compound) : Bool :=
  let tag := c.tag.filter (· != "*")
  !(tag.isNone && c.classes.isEmpty && c.ids.isEmpty) &&
    tag.all (Text.sameIgnoringAsciiCase · e.tag) &&
    c.classes.all e.classes.contains && c.ids.all e.ids.contains

def matching (e : Candidate) (list : String) : List String :=
  (splitSelectors list).filter fun s => e.couldMatch (Selector.parse s).subject

mutual

def keepRule (e : Candidate) : Rule → Option Rule
  | .rule selector body =>
    match e.matching selector with
    | [] => none
    | kept => some (.rule (Text.join ", " kept) body)
  | .atRule name params body =>
    match keep e body with
    | [] => none
    | kept => some (.atRule name params kept)
  | .decl _ _ => none

def keep (e : Candidate) : List Rule → List Rule
  | [] => []
  | r :: rest =>
    match keepRule e r with
    | some kept => kept :: keep e rest
    | none => keep e rest

end

end Candidate

end Stencil.Style
