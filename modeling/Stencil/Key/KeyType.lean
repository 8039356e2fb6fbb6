import Stencil.Entries
import Stencil.Json.Fields
import Stencil.Text.Blank

/-! The types of dynamic keys. A key stands for a value that the user of a template supplies; its type
says which values these are. As JSON a type is its name, or an object with its one member when it
carries data. -/
namespace Stencil

/-- One value an author offers, and the name under which the user of the template picks it. -/
structure Choice where
  value : String
  name : String
  deriving DecidableEq, Repr, Inhabited

namespace Choice

def toJson (c : Choice) : Json := .object [("value", .string c.value), ("name", .string c.name)]

def ofJson? (v : Json) : Option Choice := do
  match ← (← v.fields?).take? ["value", "name"] with
  | [some (.string value), some (.string name)] => some ⟨value, name⟩
  | _ => none

/-- The values of options by their names. -/
def table (options : List Choice) : Entries String :=
  Entries.ofList (options.map fun c => (c.name, c.value))

end Choice

/-- Sets of values that markup itself fixes. -/
inductive NamedType where
  | inputType
  | inputAutocomplete
  | linkTarget
  | crossOrigin
  | buttonType
  | onChange
  | onClick
  | ariaCurrent
  deriving DecidableEq, Repr, Inhabited

namespace NamedType

def name : NamedType → String
  | inputType => "INPUT_TYPE"
  | inputAutocomplete => "INPUT_AUTOCOMPLETE"
  | linkTarget => "A_TARGET"
  | crossOrigin => "CROSS_ORIGIN"
  | buttonType => "BUTTON_TYPE"
  | onChange => "ONCHANGE"
  | onClick => "ONCLICK"
  | ariaCurrent => "ARIA_CURRENT"

def all : List NamedType :=
  [inputType, inputAutocomplete, linkTarget, crossOrigin, buttonType, onChange, onClick, ariaCurrent]

def ofName? (s : String) : Option NamedType := all.find? (·.name == s)

def toJson (t : NamedType) : Json := .string t.name

def ofJson? (v : Json) : Option NamedType := do
  let (name, content) ← v.variant?
  if Json.isUnitContent content then ofName? name else none

end NamedType

inductive KeyType where
  | string
  | boolean
  | number
  | function
  | reference
  | node
  | named (type : NamedType)
  | enumeration (options : List Choice)
  deriving DecidableEq, Repr, Inhabited

namespace KeyType

def options? : KeyType → Option (List Choice)
  | enumeration options => some options
  | _ => none

/-- The type as messages show it. -/
def shown : KeyType → String
  | string => "string"
  | boolean => "boolean"
  | number => "number"
  | function => "function"
  | reference => "reference"
  | node => "node"
  | named t => t.name
  | enumeration options => "enum(" ++ Text.join "|" (options.map (·.name)) ++ ")"

def toJson : KeyType → Json
  | named t => .object [("named", t.toJson)]
  | enumeration options => .object [("enumeration", .array (options.map Choice.toJson))]
  | t => .string t.shown

def ofJson? (v : Json) : Option KeyType := do
  match ← v.variant? with
  | ("named", some content) => return .named (← NamedType.ofJson? content)
  | ("enumeration", some content) => return .enumeration (← (← content.array?).mapM Choice.ofJson?)
  | (name, content) =>
    if Json.isUnitContent content then
      [string, boolean, number, function, reference, node].find? (·.shown == name)
    else none

end KeyType

end Stencil
