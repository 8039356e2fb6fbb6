import Stencil.Json.Fields
import Stencil.Key.Registry
import Stencil.Text.Quoted

/-! The formats a template is compiled to. Logic-less formats are markup with variables, in one of two
dialects; component formats are programs, with options for their language and their styles. -/
namespace Stencil

inductive Format where
  | mustache
  | twigEmbed
  | silverstripeComponents
  | reactTsStyledComponents
  | reactTs
  | reactJs
  deriving DecidableEq, Repr, Inhabited

inductive Dialect where
  /-- Sections that stand while a key is set, closed by name. -/
  | mustache
  /-- Blocks with conditions and comparisons. -/
  | serverEmbed
  deriving DecidableEq, Repr

inductive Language where
  | typescript
  | javascript
  deriving DecidableEq, Repr, Inhabited

namespace Language

def name : Language → String
  | typescript => "typescript"
  | javascript => "javascript"

def ofName? (s : String) : Option Language := [typescript, javascript].find? (·.name == s)

def fileExtension : Language → String
  | typescript => "tsx"
  | javascript => "js"

end Language

/-- How a component comes to its styles. -/
inductive CssStrategy where
  /-- Every styled element is a component with its own rules. -/
  | styledComponents
  /-- The component imports the stylesheet. -/
  | importCss
  | none
  deriving DecidableEq, Repr, Inhabited

namespace CssStrategy

def name : CssStrategy → String
  | styledComponents => "styled-components"
  | importCss => "import-css"
  | none => "none"

def ofName? (s : String) : Option CssStrategy := [styledComponents, importCss, none].find? (·.name == s)

end CssStrategy

structure ComponentOptions where
  language : Language := .typescript
  css : CssStrategy := .styledComponents
  deriving DecidableEq, Repr, Inhabited

namespace ComponentOptions

def toJson (o : ComponentOptions) : Json :=
  .object [("language", .string o.language.name), ("css", .string o.css.name)]

def languageOfJson? (v : Json) : Option Language := do
  let (name, content) ← v.variant?
  if Json.isUnitContent content then Language.ofName? name else none

def cssOfJson? (v : Json) : Option CssStrategy := do
  let (name, content) ← v.variant?
  if Json.isUnitContent content then CssStrategy.ofName? name else none

/-- A missing field has its default value; an unknown field is refused. -/
def ofJson? (v : Json) : Option ComponentOptions := do
  let fields ← v.fields?
  match fields with
  | .named members =>
    if members.all fun m => ["language", "css"].contains m.1 then
      match ← fields.take? ["language", "css"] with
      | [language, css] =>
        let language ← match language with
          | some v => languageOfJson? v
          | none => some .typescript
        let css ← match css with
          | some v => cssOfJson? v
          | none => some .styledComponents
        some { language, css }
      | _ => none
    else none
  | .positional items =>
    match items with
    | [] => some {}
    | [language] => return { language := ← languageOfJson? language }
    | [language, css] => return { language := ← languageOfJson? language, css := ← cssOfJson? css }
    | _ => none

end ComponentOptions

inductive FormatError where
  | unknown (name : String)
  /-- A path that does not belong to the format. -/
  | outsideDirectory (path dirname : String)
  | unsupportedCondition (format key : String)
  | registry (reason : RegistryError)
  deriving DecidableEq, Repr

def FormatError.message : FormatError → String
  | unknown name => "unknown template format " ++ Text.quoted name
  | outsideDirectory path dirname => "expected " ++ Text.quoted path ++ " to be inside " ++ dirname ++ "/"
  | unsupportedCondition format key => format ++ " cannot render a comparison on " ++ Text.quoted key
  | registry reason => reason.message

namespace Format

def all : List Format :=
  [mustache, twigEmbed, silverstripeComponents, reactTsStyledComponents, reactTs, reactJs]

/-- The name of the format, which is also the directory of its files. -/
def name : Format → String
  | mustache => "mustache"
  | twigEmbed => "twig-embed"
  | silverstripeComponents => "silverstripe-components"
  | reactTsStyledComponents => "react-ts-styled-components"
  | reactTs => "react-ts"
  | reactJs => "react-js"

def parse (s : String) : Except FormatError Format :=
  match all.find? (·.name == Text.trim s) with
  | some f => .ok f
  | none => .error (.unknown s)

/-- What kind of renderer a format has, with its own options. -/
inductive Kind where
  | logicLess (dialect : Dialect)
  | component (options : ComponentOptions)
  deriving DecidableEq, Repr

def kind : Format → Kind
  | mustache => .logicLess .mustache
  | twigEmbed | silverstripeComponents => .logicLess .serverEmbed
  | reactTsStyledComponents => .component { language := .typescript, css := .styledComponents }
  | reactTs => .component { language := .typescript, css := .importCss }
  | reactJs => .component { language := .javascript, css := .importCss }

end Format

end Stencil
