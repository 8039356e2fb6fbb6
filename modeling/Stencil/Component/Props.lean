import Stencil.Key.Registry
import Stencil.Json.Value
import Stencil.Text.WordCase

/-! The declaration of a component's properties: one field for each key of the template. -/
namespace Stencil.Component

/-- The interface of elements of a tag. -/
def elementInterface (tag : Option String) : String :=
  let name := match tag with
    | none => ""
    | some "a" => "Anchor"
    | some "img" => "Image"
    | some "textarea" => "TextArea"
    | some "td" | some "th" => "TableCell"
    | some other => Text.pascalCase other
  "HTML" ++ name ++ "Element"

def namedPropType (tag : Option String) : NamedType → String
  | .inputType => "React.InputHTMLAttributes<HTMLInputElement>[\"type\"]"
  | .inputAutocomplete => "React.InputHTMLAttributes<HTMLInputElement>[\"autoComplete\"]"
  | .linkTarget => "React.AnchorHTMLAttributes<HTMLAnchorElement>[\"target\"]"
  | .crossOrigin => "React.MediaHTMLAttributes<HTMLMediaElement>[\"crossOrigin\"]"
  | .buttonType => "React.ButtonHTMLAttributes<HTMLButtonElement>[\"type\"]"
  | .onChange => "React.DOMAttributes<" ++ elementInterface tag ++ ">[\"onChange\"]"
  | .onClick => "React.DOMAttributes<" ++ elementInterface tag ++ ">[\"onClick\"]"
  | .ariaCurrent => "React.AriaAttributes[\"aria-current\"]"

def propType (d : KeyDefinition) : String :=
  match d.type with
  | .string => "string"
  | .boolean => "boolean"
  | .number => "number"
  | .function => "(...args: unknown[]) => void"
  | .reference => "React.RefObject<" ++ elementInterface d.tag ++ ">"
  | .node => "React.ReactNode"
  | .named t => namedPropType d.tag t
  | .enumeration options => Text.join " | " (options.map fun c => Json.quote c.name)

def propField (name : String) (d : KeyDefinition) : String :=
  "  " ++ name ++ (if d.optional then "?" else "") ++ ": " ++ propType d ++ ";\n"

def propsDeclaration (r : Registry) : String :=
  "type Props = \x7b\n" ++ Text.concat (r.keys.map fun (name, d) => propField name d) ++ "\x7d;\n\n"

/-- The parameter list that takes the properties apart. -/
def parameters (r : Registry) : String :=
  match r.names with
  | [] => "\x7b\x7d"
  | names => "\x7b " ++ Text.join ", " names ++ " \x7d"

end Stencil.Component
