import Stencil.Component.Draft
import Stencil.Component.Index
import Stencil.LogicLess.Draft

/-! What has been written of a template in any format, and the steps in which it is written. Every draft
has a registry of its own, so keys of one format never show in another. -/
namespace Stencil

/-- All that a format is told about an element. -/
structure Opening where
  tag : String
  attributes : List Attribute
  /-- The rules that can apply to the element. -/
  rules : List Style.Rule
  selfClosing : Bool

inductive Draft where
  | logicLess (d : LogicLess.Draft)
  | component (d : Component.Draft)

namespace Draft

/-- An empty draft. Options that are given replace those of a component format. -/
def start (format : Format) (template : String) (options : Option ComponentOptions) : Draft :=
  match format.kind with
  | .logicLess dialect => .logicLess { format, dialect, template }
  | .component defaults => .component { format, options := options.getD defaults, template }

def format : Draft → Format
  | logicLess d => d.format
  | component d => d.format

def registry : Draft → Registry
  | logicLess d => d.registry
  | component d => d.registry

def withRegistry (registry : Registry) : Draft → Draft
  | logicLess d => .logicLess { d with registry }
  | component d => .component { d with registry }

/-- Opens an element and returns the name to close it under. -/
def openElement (o : Opening) : Draft → Reported FormatError (String × Draft)
  | logicLess d => .ok (o.tag, .logicLess (d.openElement o.tag o.attributes o.selfClosing))
  | component d => do
    let (name, d) ← d.openElement o.tag o.attributes o.rules o.selfClosing
    return (name, .component d)

def closeElement (name : String) : Draft → Draft
  | logicLess d => .logicLess (d.closeElement name)
  | component d => .component (d.closeElement name)

def addText (text : String) : Draft → Draft
  | logicLess d => .logicLess (d.addText text)
  | component d => .component (d.addText text)

def addVariable (key default : String) : Draft → Draft
  | logicLess d => .logicLess (d.addVariable key)
  | component d => .component (d.addVariable key default)

def openCondition (c : Condition) : Draft → Except FormatError Draft
  | logicLess d => (d.openCondition c).map .logicLess
  | component d => .ok (.component (d.openCondition c))

def closeCondition : Draft → List Notice × Draft
  | logicLess d => ((d.closeCondition).1, .logicLess (d.closeCondition).2)
  | component d => ([], .component d.closeCondition)

/-- The files of the finished draft, given the stylesheet and whether the template has several roots. -/
def files (css : String) (multipleRoots : Bool) : Draft → FileMap
  | logicLess d => d.files
  | component d => d.files css multipleRoots

end Draft

/-- The index files of a format for the paths of its components; logic-less formats have none. -/
def Format.indexFiles (f : Format) (paths : List String) (options : Option ComponentOptions) :
    Except FormatError FileMap :=
  match f.kind with
  | .logicLess _ => .ok []
  | .component defaults => Component.indexFiles f.name (options.getD defaults).language paths

end Stencil
