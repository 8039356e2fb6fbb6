import Stencil.Attribute.Compile
import Stencil.Format
import Stencil.Markup.Reader
import Stencil.Style.Reader

/-! Templates, and why one does not compile. -/
namespace Stencil

structure Template where
  id : String
  html : String
  css : String := ""
  deriving DecidableEq, Repr, Inhabited

namespace Template

def toJson (t : Template) : Json :=
  .object [("id", .string t.id), ("html", .string t.html), ("css", .string t.css)]

/-- The stylesheet may be missing. -/
def ofJson? (v : Json) : Option Template := do
  let fields ← v.fields?
  match fields with
  | .named _ =>
    match ← fields.take? ["id", "html", "css"] with
    | [some (.string id), some (.string html), none] => some { id, html }
    | [some (.string id), some (.string html), some (.string css)] => some { id, html, css }
    | _ => none
  | .positional [.string id, .string html] => some { id, html }
  | .positional [.string id, .string html, .string css] => some { id, html, css }
  | .positional _ => none

end Template

inductive CompileError where
  | attributes (failure : AttributeFailure)
  | format (template : String) (reason : FormatError)
  | missingKey (template tag : String)
  | invalidCondition (template expression : String)
  | style (reason : Style.SyntaxError)
  | markup (reason : Markup.Unterminated)
  | access (reason : Markup.AccessError)

def CompileError.message : CompileError → String
  | attributes failure => failure.message
  | format template reason => "template " ++ Text.quoted template ++ ": " ++ reason.message
  | missingKey template tag =>
    "template " ++ Text.quoted template ++ ": <" ++ tag ++ "> needs a key=\"...\" attribute"
  | invalidCondition template expression =>
    "template " ++ Text.quoted template ++ ": invalid condition " ++ Text.quoted expression
  | style reason => reason.message
  | markup reason => reason.message
  | access reason => reason.message

/-- The tag of an element that stands for a value. -/
def variableTag : String := "mt-variable"

/-- The tag of an element that stands only under a condition. -/
def conditionTag : String := "mt-if"

end Stencil
