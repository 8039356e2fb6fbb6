import Stencil.Json.Reader
import Stencil.Project.Build
import Stencil.Template.Preview

/-! A preview of a template in a file, with values from a file of their own and from assignments, which
win. -/
namespace Stencil.Project

/-- A key and a value around the first equals sign; the key is trimmed and must not be blank. -/
def assignment (text : String) : Except ProjectError (String × String) :=
  match Text.splitOnce? "=" text with
  | some (key, value) =>
    if Text.allBlank key then .error (.badAssignment text) else .ok (Text.trim key, value)
  | none => .error (.badAssignment text)

variable {m : Type → Type} [Monad m]

def readValues (disk : Disk m) : Option String → ProjectM m (Entries String)
  | none => return []
  | some path => do
    let text ← readFile disk path
    orFail (.unparsable path) ((Json.parse? text).bind Entries.ofJson?)

/-- The markup of the last template of an input. -/
def preview (disk : Disk m) (input : String) (valuesFile : Option String)
    (assignments : List (String × String)) : ProjectM m String := do
  let values ← readValues disk valuesFile
  let values := assignments.foldl (fun values (k, v) => Entries.put values k v) values
  let templates ← readTemplates disk [input]
  let template ← orFail (.noTemplate input) templates.getLast?
  match template.preview values with
  | .ok html => return html
  | .error e => throw (.compile e)

end Stencil.Project
