import Stencil.Condition
import Stencil.Entries
import Stencil.Markup.Scoped
import Stencil.Template.Basic

/-! A template as plain markup, with values for some of its keys. The values are put onto the elements
themselves under a guard and taken back once an element is written, whatever happens; so every
function here returns the tree it leaves behind. -/
namespace Stencil.Preview

open Markup (Node Element Scoped ScopedM Access)

abbrev Values := Entries String

/-- Anything but nothing and "false" counts as set. -/
def isSet (value : Option String) : Bool := value.any fun v => !v.isEmpty && v != "false"

def holds (c : Condition) (values : Values) : Bool :=
  match c.comparison with
  | none => isSet (values.get? c.key)
  | some (.equals, expected) => values.get? c.key == some expected
  | some (.notEquals, expected) => values.get? c.key != some expected

def markerText? (values : Values) (m : Marker) : Option String :=
  match m.options with
  | none => values.get? m.key
  | some [only] => if isSet (values.get? m.key) then some only.value else none
  | some options => (options.find? fun c => some c.name == values.get? m.key).map (·.value)

/-- The static text and the texts of the markers, without the empty ones. -/
def attributeText (text : String) (markers : List Marker) (values : Values) : String :=
  Text.join " " ((text :: markers.filterMap (markerText? values)).filter (!·.isEmpty))

def escapeText (s : String) : String :=
  Text.mapChars (fun c =>
    if c = '&' then "&amp;" else if c = '<' then "&lt;" else if c = '>' then "&gt;" else c.toString) s

abbrev BindM := ExceptT CompileError (StateM (Scoped Element))

def onGuard {α : Type} (x : ScopedM Element α) : BindM α := fun s =>
  match x s with
  | (.ok a, s) => (.ok a, s)
  | (.error e, s) => (.error (.access e), s)

/-- Puts the values into one attribute. An attribute without markers stays; one that is left empty goes.
The guard only adds classes, so the class attribute is removed first. -/
def bindAttribute (template : String) (values : Values) (name : String) : BindM Unit := do
  let a := Access.ofElement
  let raw ← onGuard (Scoped.onNode (a.read name))
  match Marker.parse raw with
  | .error reason =>
    throw (.attributes { template, snippet := name ++ "=\"" ++ raw ++ "\"", reason := .marker name reason })
  | .ok (text, markers) =>
    if !markers.isEmpty then
      let value := attributeText text markers values
      if value.isEmpty || name == "class" then onGuard (Scoped.removeAttribute a name)
      if !value.isEmpty then onGuard (Scoped.setAttribute a name value)

def bindAttributes (template : String) (values : Values) : List String → BindM Unit
  | [] => pure ()
  | name :: rest => do
    bindAttribute template values name
    bindAttributes template values rest

def bindElement (template : String) (values : Values) (e : Element) :
    Except CompileError Unit × Scoped Element :=
  (bindAttributes template values (e.attrs.map (·.name))) { node := e }

/-- The opening tag; the slash is written only where the author wrote it. -/
def openTag (e : Element) : String := e.openTag ++ (if e.selfClosing then "/>" else ">")

def abandon (guard : Scoped Element) : Element := (guard.drop Access.ofElement).2

/-- Writes a bound element around its contents and ends the guard. -/
def finish (guard : Scoped Element) (contents : String) : Except CompileError String × Element :=
  let e := guard.node
  let html := if e.isLeaf then openTag e else openTag e ++ contents ++ "</" ++ e.tag ++ ">"
  match guard.rollback Access.ofElement with
  | (.ok (), _, e) => (.ok html, e)
  | (.error reason, _, e) => (.error (.access reason), e)

mutual

def renderNode (template : String) (values : Values) : Node → Except CompileError String × Node
  | .text t => (.ok t, .text t)
  | .comment c => (.ok "", .comment c)
  | .element e children =>
    if e.tag == variableTag then
      match values.get? (Text.trim (e.authored "key")) with
      | some value => (.ok (escapeText value), .element e children)
      | none =>
        let (html, children) := render template values children
        (html, .element e children)
    else if e.tag == conditionTag then
      match Condition.parse? (e.authored "key") with
      | none => (.error (.invalidCondition template (e.authored "key")), .element e children)
      | some condition =>
        if holds condition values then
          let (html, children) := render template values children
          (html, .element e children)
        else (.ok "", .element e children)
    else
      match bindElement template values e with
      | (.error reason, guard) => (.error reason, .element (abandon guard) children)
      | (.ok (), guard) =>
        if e.isLeaf then
          let (html, e) := finish guard ""
          (html, .element e children)
        else
          match render template values children with
          | (.error reason, children) => (.error reason, .element (abandon guard) children)
          | (.ok contents, children) =>
            let (html, e) := finish guard contents
            (html, .element e children)

/-- The markup of the nodes up to the first error, and the nodes afterwards. -/
def render (template : String) (values : Values) : List Node → Except CompileError String × List Node
  | [] => (.ok "", [])
  | n :: rest =>
    match renderNode template values n with
    | (.error reason, n) => (.error reason, n :: rest)
    | (.ok html, n) =>
      let (more, rest) := render template values rest
      (more.map (html ++ ·), n :: rest)

end

end Stencil.Preview

namespace Stencil.Template

def preview (t : Template) (values : Preview.Values) : Except CompileError String := do
  let roots ← (Markup.parse t.html).mapError .markup
  (Preview.render t.id values roots).1

end Stencil.Template
