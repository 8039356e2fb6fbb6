import Stencil.Json.Value

/-! Maps from names to values that keep the order in which names first came in. Putting a name that is
there already changes its value and not its place. -/
namespace Stencil

abbrev Entries (α : Type) := List (String × α)

namespace Entries

variable {α : Type}

def get? (entries : Entries α) (name : String) : Option α :=
  (entries.find? (·.1 == name)).map (·.2)

def put (entries : Entries α) (name : String) (value : α) : Entries α :=
  match entries with
  | [] => [(name, value)]
  | e :: rest => if e.1 == name then (name, value) :: rest else e :: put rest name value

/-- The pairs put one after the other: of two with one name the later value stands at the earlier
place. -/
def ofList (pairs : List (String × α)) : Entries α :=
  pairs.foldl (fun entries p => entries.put p.1 p.2) []

/-- Changes the value of a name, if it is there. -/
def update (entries : Entries α) (name : String) (f : α → α) : Entries α :=
  entries.map fun e => if e.1 == name then (e.1, f e.2) else e

/-- An object whose members are all texts. -/
def ofJson? (v : Json) : Option (Entries String) := do
  let pairs ← (← v.members?).mapM fun (name, value) => value.string?.map fun s => (name, s)
  return ofList pairs

def toJson (entries : Entries String) : Json := .object (entries.map fun (name, s) => (name, .string s))

end Entries

end Stencil
