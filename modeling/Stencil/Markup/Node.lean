import Stencil.Text.Blank
import Stencil.Text.Search

/-! The markup tree. An element's own data (tag, attributes, how it was closed, first values of changed
attributes) is one record without its children, so that attribute access needs no tree; a node joins
an element with its children. Printing writes text as it stands and escapes only attribute values. -/
namespace Stencil.Markup

structure Attr where
  name : String
  value : String
  deriving DecidableEq, Repr, Inhabited

structure Element where
  tag : String
  /-- In source order, one entry for a name. -/
  attrs : List Attr := []
  /-- Written with a closing slash. -/
  selfClosing : Bool := false
  /-- The value an attribute had before the first change to it. -/
  pristine : List Attr := []
  deriving DecidableEq, Repr, Inhabited

inductive Node where
  | element (head : Element) (children : List Node)
  | text (content : String)
  | comment (content : String)
  deriving Repr, Inhabited

/-- Tags of elements that have no content and no closing tag. -/
def voidTags : List String :=
  ["area", "base", "br", "col", "embed", "hr", "img", "input", "link", "meta", "param", "source",
    "track", "wbr"]

def isVoid (tag : String) : Bool := voidTags.contains (Text.toLowerAscii tag)

namespace Attr

def find? (attrs : List Attr) (name : String) : Option String :=
  (attrs.find? (·.name == name)).map (·.value)

/-- Replaces the value in place, or adds the attribute at the end. -/
def put (attrs : List Attr) (name value : String) : List Attr :=
  match attrs with
  | [] => [⟨name, value⟩]
  | a :: rest => if a.name == name then ⟨name, value⟩ :: rest else a :: put rest name value

def erase (attrs : List Attr) (name : String) : List Attr := attrs.eraseP (·.name == name)

/-- Inside double quotes only the ampersand and the quote are written as references. -/
def escape (c : Char) : String :=
  if c = '&' then "&amp;" else if c = '"' then "&quot;" else c.toString

def render (a : Attr) : String :=
  " " ++ a.name ++ "=\"" ++ Text.mapChars escape a.value ++ "\""

end Attr

namespace Element

def get? (e : Element) (name : String) : Option String := Attr.find? e.attrs name

def pristine? (e : Element) (name : String) : Option String := Attr.find? e.pristine name

def put (e : Element) (name value : String) : Element :=
  { e with attrs := Attr.put e.attrs name value }

def erase (e : Element) (name : String) : Element := { e with attrs := Attr.erase e.attrs name }

/-- An element with the given attributes, put one after the other. -/
def ofAttrs (tag : String) (attrs : List Attr) : Element :=
  attrs.foldl (fun e a => e.put a.name a.value) { tag }

def classList (e : Element) : List String := Text.words ((e.get? "class").getD "")

/-- Elements that never have content: void ones and those written with a closing slash. -/
def isLeaf (e : Element) : Bool := e.selfClosing || isVoid e.tag

def openTag (e : Element) : String := "<" ++ e.tag ++ Text.concat (e.attrs.map Attr.render)

end Element

namespace Node

mutual

def render : Node → String
  | .text t => t
  | .comment c => "<!--" ++ c ++ "-->"
  | .element e children =>
    if e.isLeaf then e.openTag ++ "/>"
    else e.openTag ++ ">" ++ renderAll children ++ "</" ++ e.tag ++ ">"

/-- The nodes printed one after the other. -/
def renderAll : List Node → String
  | [] => ""
  | n :: rest => n.render ++ renderAll rest

end

mutual

/-- The text of all text nodes below and including this one, in order. -/
def textContent : Node → String
  | .text t => t
  | .comment _ => ""
  | .element _ children => textContentAll children

def textContentAll : List Node → String
  | [] => ""
  | n :: rest => n.textContent ++ textContentAll rest

end

def isBlank : Node → Bool
  | .text t => Text.allBlank t
  | _ => false

def isComment : Node → Bool
  | .comment _ => true
  | _ => false

end Node

end Stencil.Markup
