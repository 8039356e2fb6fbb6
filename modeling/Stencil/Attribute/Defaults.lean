import Stencil.Attribute.Basic
import Stencil.Key.Registry
import Stencil.Notice
import Stencil.Text.Quoted
import Stencil.Text.Search
import Stencil.Text.WordCase

/-! The attributes that every element of a tag offers to the user of a template, also where the author
left them out. An attribute that its author already bound stays; any other is replaced by one key. -/
namespace Stencil

def booleanAttributes : List String :=
  ["allowfullscreen", "allowpaymentrequest", "aria-expanded", "aria-hidden", "aria-pressed",
    "aria-selected", "autofocus", "autoplay", "checked", "controls", "disabled", "hidden", "loop",
    "multiple", "muted", "novalidate", "open", "readonly", "required", "selected", "spellcheck"]

def numericAttributes : List String :=
  ["cols", "colspan", "max", "maxlength", "min", "minlength", "rows", "rowspan", "size", "step",
    "tabindex"]

def dataTypeFor (tag attributeName : String) : KeyType :=
  let tag := Text.toLowerAscii tag
  let name := Text.toLowerAscii attributeName
  if (tag == "audio" || tag == "video") && name == "preload" then .boolean
  else if booleanAttributes.contains name then .boolean
  else if numericAttributes.contains name then .number
  else .string

/-- One attribute that a tag offers: the name its key asks for, the type the key is registered with and
the type the attribute renders. -/
structure Default where
  attributeName : String
  key : String
  registered : KeyType
  rendered : KeyType
  optional : Bool
  deriving DecidableEq, Repr

namespace Default

/-- A text under a key of its own name. -/
def text (attributeName : String) (optional : Bool) : Default :=
  ⟨attributeName, Text.camelCase attributeName, .string, .string, optional⟩

def required (attributeName : String) : Default := text attributeName false

def free (attributeName : String) : Default := text attributeName true

def flag (attributeName key : String) : Default := ⟨attributeName, key, .boolean, .boolean, true⟩

def number (attributeName key : String) : Default := ⟨attributeName, key, .number, .number, true⟩

/-- A text whose key is declared with one of the value sets of markup. -/
def named (attributeName key : String) (type : NamedType) (optional : Bool) : Default :=
  ⟨attributeName, key, .named type, .string, optional⟩

def mediaFlags : List Default :=
  ["controls", "autoplay", "muted", "preload", "loop"].map fun a => flag a a

def crossOriginChoices : List Choice :=
  [⟨"anonymous", "anonymous"⟩, ⟨"use-credentials", "use-credentials"⟩]

/-- Whether the text is a name already: a letter or underscore, then letters, digits and underscores. -/
def isIdentifier (s : String) : Bool :=
  match s.toList with
  | [] => false
  | c :: rest => (c.isAlpha || c == '_') && rest.all fun c => c.isAlphanum || c == '_'

def literalKey (literal : String) : String :=
  if isIdentifier literal then literal else Text.camelCase literal

def buttonInputTypes : List String := ["submit", "image", "button"]

def lengthLimitedTypes : List String := ["text", "email", "search", "password", "tel", "url"]

/-- Only a button whose type is written out may go without a name. -/
def isNameOptional (type : Option String) : Bool := type.any buttonInputTypes.contains

/-- Inputs that are neither a choice nor a file are text boxes. -/
def isTextBox (type : Option String) : Bool := !type.any ["radio", "checkbox", "file"].contains

/-- A missing type is a plain text box. -/
def hasLengthLimit (type : Option String) : Bool := type.all lengthLimitedTypes.contains

/-- A text named by what its author wrote, or by the attribute if that is nothing. -/
def literalText (attributeName literal : String) (optional : Bool) : Default :=
  if literal.isEmpty then text attributeName optional
  else ⟨attributeName, literalKey literal, .string, .string, optional⟩

/-- What an input offers, given its authored name, value and type, and whether it has a length limit. -/
def forInput (name value : String) (type : Option String) (limited : Bool) : List Default :=
  [flag "disabled" "disabled", flag "readonly" "readOnly", flag "autofocus" "autoFocus",
    literalText "name" name (isNameOptional type)] ++
  (if type == some "file" then [] else [literalText "value" value true]) ++
  (if type == some "radio" || type == some "checkbox" then [flag "checked" "checked"] else []) ++
  (if isTextBox type then
    (if type == none || type == some "number" then [number "min" "min", number "max" "max"]
      else []) ++
    (if type == none then [named "type" "type" .inputType false] else []) ++
    [flag "spellcheck" "spellCheck"] ++
    (if !limited && hasLengthLimit type then [number "maxlength" "maxLength"] else []) ++
    [named "autocomplete" "autoComplete" .inputAutocomplete false]
  else [])

def literal? (attributes : List Attribute) (attributeName : String) : Option String :=
  (Attribute.find? attributes attributeName).map (·.text)

/-- What elements of a tag offer, in the order in which the keys are registered. -/
def forTag (tag : String) (attributes : List Attribute) : List Default :=
  match tag with
  | "html" => [required "lang"]
  | "link" => [required "href", free "rel"]
  | "meta" => [free "name", free "http-equiv", free "charset", free "content"]
  | "details" => [flag "open" "open"]
  | "input" =>
    forInput ((literal? attributes "name").getD "") ((literal? attributes "value").getD "")
      (literal? attributes "type") (literal? attributes "maxlength").isSome
  | "textarea" =>
    [required "name", flag "disabled" "disabled", flag "readonly" "readOnly", number "rows" "rows",
      number "cols" "cols", flag "autofocus" "autoFocus", flag "spellcheck" "spellCheck",
      named "autocomplete" "autoComplete" .inputAutocomplete false, number "maxlength" "maxLength",
      free "value"]
  | "select" => [required "name", flag "multiple" "multiple"]
  | "option" => [flag "selected" "selected"]
  | "a" => [required "href", free "rel", named "target" "target" .linkTarget true]
  | "abbr" => [required "title"]
  | "time" => [required "datetime"]
  | "img" =>
    [required "src", free "width", free "height", free "srcset",
      named "crossorigin" "crossOrigin" .crossOrigin true]
  | "audio" => free "src" :: mediaFlags
  | "video" =>
    [free "src", free "width", free "height", free "poster"] ++ mediaFlags ++
      [⟨"crossorigin", "crossOrigin", .named .crossOrigin, .enumeration crossOriginChoices, true⟩]
  | "iframe" =>
    [free "src", free "width", free "height", ⟨"allow", "allow", .string, .string, true⟩,
      flag "allowfullscreen" "allowFullscreen", flag "allowpaymentrequest" "allowPaymentRequest"]
  | "td" => [free "colspan", free "rowspan"]
  | "button" => [free "name", named "type" "type" .buttonType true]
  | _ => []

/-- The attribute that a default puts in place, once its key has a name. -/
def replacement (d : Default) (tag key : String) : Attribute where
  name := d.attributeName
  text := ""
  type := match d.rendered with
    | .enumeration options => .enumeration options
    | _ => dataTypeFor tag d.attributeName
  bindings := [{ key, optional := d.optional, type := d.rendered }]
  omittedIfEmpty := true

def isBound (attributes : List Attribute) (attributeName : String) : Bool :=
  (Attribute.find? attributes attributeName).any fun a => !a.isStatic

def apply (d : Default) (tag : String) (attributes : List Attribute) (r : Registry) :
    Except RegistryError (List Attribute × Registry) :=
  if isBound attributes d.attributeName then .ok (attributes, r)
  else do
    let (key, r) ← r.register d.key { type := d.registered, optional := d.optional, tag := some tag }
    return (Attribute.put attributes (d.replacement tag key), r)

/-- Applies the defaults in turn; the keys of those before a failure stay registered. -/
def applyAll (tag : String) :
    List Default → List Attribute → Registry → Except RegistryError (List Attribute) × Registry
  | [], attributes, r => (.ok attributes, r)
  | d :: rest, attributes, r =>
    match d.apply tag attributes r with
    | .error e => (.error e, r)
    | .ok (attributes, r) => applyAll tag rest attributes r

/-- The length limit of a text box is left out when it is empty, also an authored one. -/
def omitEmptyLimit (tag : String) (type : Option String) (attributes : List Attribute) :
    List Attribute :=
  match Attribute.find? attributes "maxlength" with
  | some limit =>
    if tag == "input" && isTextBox type then
      Attribute.put attributes { limit with omittedIfEmpty := true }
    else attributes
  | none => attributes

/-- What the author is told about the attributes: a length limit on an input type that has none. -/
def notices (tag : String) (attributes : List Attribute) : List Notice :=
  let type := literal? attributes "type"
  if tag == "input" && isTextBox type && (literal? attributes "maxlength").isSome &&
      !hasLengthLimit type then
    [.maxlengthIgnored (Text.quoted (type.getD ""))]
  else []

end Default

end Stencil
