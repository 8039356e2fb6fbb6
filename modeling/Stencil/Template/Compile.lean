import Stencil.Template.Walk

/-! Compiling a template to formats. Markup and stylesheet are read once; every format has a walk and
keys of its own, in which the names that the template binds are reserved. The first error ends the
whole template. -/
namespace Stencil

open Markup (Node Element)

namespace Template

/-- The key that an element binds for the whole template. -/
def boundKey? (e : Element) : Option String :=
  if e.tag == variableTag then some (Text.trim (e.authored "key"))
  else if e.tag == conditionTag then (Condition.parse? (e.authored "key")).map (·.key)
  else none

mutual

def boundKeysOf : Node → List String
  | .element e children => (boundKey? e).toList ++ boundKeys children
  | _ => []

/-- The keys that elements anywhere in the markup bind, in document order. -/
def boundKeys : List Node → List String
  | [] => []
  | n :: rest => boundKeysOf n ++ boundKeys rest

end

/-- Whether more than one root is written: blank text and comments do not count. -/
def hasMultipleRoots (roots : List Node) : Bool :=
  (roots.filter fun n => !n.isBlank && !n.isComment).length > 1

def compileTo (t : Template) (options : Option ComponentOptions) (roots : List Node)
    (rules : List Style.Rule) (format : Format) : Reported CompileError FileMap := do
  let draft := Draft.start format t.id options
  let draft := draft.withRegistry ((boundKeys roots).foldl Registry.reserve draft.registry)
  let (_, draft) ← Walk.walk { target := Draft.target, template := t.id, rules } roots draft
  return draft.files t.css (hasMultipleRoots roots)

def compileEach (t : Template) (options : Option ComponentOptions) (roots : List Node)
    (rules : List Style.Rule) : List Format → Reported CompileError (List (Format × FileMap))
  | [] => pure []
  | format :: rest => do
    let files ← compileTo t options roots rules format
    let later ← compileEach t options roots rules rest
    return (format, files) :: later

def compile (t : Template) (formats : List Format) (options : Option ComponentOptions) :
    Reported CompileError (List (Format × FileMap)) := do
  let roots ← Reported.ofExcept ((Markup.parse t.html).mapError .markup)
  let rules ← (Style.parse t.css).mapError .style
  compileEach t options roots rules formats

end Template

end Stencil
