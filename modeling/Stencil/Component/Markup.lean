import Stencil.Component.Expression
import Stencil.Notice
import Stencil.Text.Decimal
import Stencil.Text.WordCase

/-! Opening tags and text of a component: attribute names as components spell them, static values, inline
styles and expressions in braces. -/
namespace Stencil.Component

/-- Attributes that components spell differently. -/
def propNames : List (String × String) :=
  [("allowfullscreen", "allowFullScreen"), ("autocomplete", "autoComplete"),
    ("autofocus", "autoFocus"), ("autoplay", "autoPlay"), ("charset", "charSet"),
    ("class", "className"), ("colspan", "colSpan"), ("crossorigin", "crossOrigin"),
    ("datetime", "dateTime"), ("enctype", "encType"), ("fill-rule", "fillRule"), ("for", "htmlFor"),
    ("formaction", "formAction"), ("http-equiv", "httpEquiv"), ("inputmode", "inputMode"),
    ("maxlength", "maxLength"), ("minlength", "minLength"), ("novalidate", "noValidate"),
    ("playsinline", "playsInline"), ("readonly", "readOnly"), ("rowspan", "rowSpan"),
    ("spellcheck", "spellCheck"), ("srcset", "srcSet"), ("tabindex", "tabIndex"),
    ("usemap", "useMap")]

def propName (attributeName : String) : String := (propNames.lookup attributeName).getD attributeName

/-- Braces start expressions, so a brace in text is written as one. -/
def escapeText (s : String) : String :=
  Text.mapChars (fun c =>
    if c = '{' then "\x7b\"\x7b\"\x7d" else if c = '}' then "\x7b\"\x7d\"\x7d" else c.toString) s

def braced (s : String) : String := "\x7b" ++ s ++ "\x7d"

/-- Booleans and numbers are expressions, all else is a string. -/
def staticValue (a : Attribute) : String :=
  let value := Text.trim a.text
  match a.type with
  | .boolean => if Text.sameIgnoringAsciiCase value "false" then braced "false" else braced "true"
  | .number => if Text.isNumber value then braced value else Json.quote a.text
  | _ => Json.quote a.text

def styleProperty (property : String) : String :=
  match property.toList with
  | '-' :: '-' :: _ => property
  | '-' :: 'm' :: 's' :: '-' :: rest => Text.camelCase ("ms-" ++ String.ofList rest)
  | '-' :: vendor => Text.pascalCase (String.ofList vendor)
  | _ => Text.camelCase property

def styleObject (css : String) : String :=
  let entries := (Text.Chars.pieces (· == ';') css.toList).filterMap fun declaration =>
    match Text.splitOnce? ":" (String.ofList declaration) with
    | none => none
    | some (property, value) =>
      if Text.allBlank property || Text.allBlank value then none
      else some (Json.quote (styleProperty (Text.trim property)) ++ ":" ++ Json.quote (Text.trim value))
  braced (Text.join "," entries)

/-- Attributes that hold nothing but the key itself. -/
def isHandler (attributeName : String) : Bool := ["onChange", "onClick", "ref"].contains attributeName

def renderAttribute (a : Attribute) : String :=
  if a.name == "style" then " style=" ++ braced (styleObject a.text)
  else if a.isStatic then " " ++ propName a.name ++ "=" ++ staticValue a
  else " " ++ propName a.name ++ "=" ++ braced (boundValue a).write

def writeAttribute (a : Attribute) : String :=
  if isHandler a.name then " " ++ a.name ++ "=" ++ braced (Text.concat (a.bindings.map (·.key)))
  else renderAttribute a

/-- Whether the keys of the attribute are read by an expression over its options. -/
def readsOptions (a : Attribute) : Bool := !isHandler a.name && a.name != "style"

/-- Bindings in an inline style are not rendered. -/
def attributeNotices (format template : String) (a : Attribute) : List Notice :=
  if a.name == "style" && !a.isStatic then [.styleVariablesIgnored format a.text template] else []

end Stencil.Component
