import Stencil.Draft
import Stencil.Style.Matching
import Stencil.Template.Basic

/-! One walk over the markup of a template, in document order, that tells a target what it meets. An
element is closed under the name its opening was given; what stands inside a variable is its default
and is not walked. -/
namespace Stencil

open Markup (Node Element)

/-- What a walk writes to. -/
structure Target (τ : Type) where
  registry : τ → Registry
  withRegistry : Registry → τ → τ
  /-- Returns the name to close the element under. -/
  openElement : Opening → τ → Reported FormatError (String × τ)
  closeElement : String → τ → τ
  addText : String → τ → τ
  addVariable : (key default : String) → τ → τ
  openCondition : Condition → τ → Except FormatError τ
  closeCondition : τ → List Notice × τ

def Draft.target : Target Draft where
  registry := Draft.registry
  withRegistry := Draft.withRegistry
  openElement := Draft.openElement
  closeElement := Draft.closeElement
  addText := Draft.addText
  addVariable := Draft.addVariable
  openCondition := Draft.openCondition
  closeCondition := Draft.closeCondition

/-- A walk over some target; the notices survive a failure, the target does not. -/
abbrev WalkM (τ : Type) := StateT τ (Reported CompileError)

namespace Walk

variable {τ : Type}

/-- What a walk knows besides its target. -/
structure Context (τ : Type) where
  target : Target τ
  template : String
  rules : List Style.Rule

/-- Registers a key that the template binds itself. -/
def share (c : Context τ) (name : String) (type : KeyType) : WalkM τ String := fun s =>
  match (c.target.registry s).share name { type, optional := true, tag := none } with
  | .ok (key, r) => .ok (key, c.target.withRegistry r s)
  | .error e => .error (.format c.template (.registry e))

def requiredKey (c : Context τ) (e : Element) : WalkM τ String :=
  let key := Text.trim (e.authored "key")
  if key.isEmpty then throw (.missingKey c.template e.tag) else pure key

def addVariable (c : Context τ) (e : Element) (children : List Node) : WalkM τ Unit := do
  let key ← share c (← requiredKey c e) .node
  modify (c.target.addVariable key (Node.renderAll children))

def openCondition (c : Context τ) (e : Element) : WalkM τ Unit := do
  let expression ← requiredKey c e
  match Condition.parse? expression with
  | none => throw (.invalidCondition c.template expression)
  | some condition =>
    let key ← share c condition.key .string
    fun s => match c.target.openCondition { condition with key } s with
      | .ok s => .ok ((), s)
      | .error reason => .error (.format c.template reason)

def closeCondition (c : Context τ) : WalkM τ Unit := fun s =>
  ⟨(c.target.closeCondition s).1, .ok ((), (c.target.closeCondition s).2)⟩

def attributes (c : Context τ) (e : Element) : WalkM τ (List Attribute) := fun s =>
  let (result, compiled) := Attribute.compile Markup.Access.ofElement e.tag c.template
    { node := e, registry := c.target.registry s }
  match result with
  | .ok attributes => ⟨compiled.notices, .ok (attributes, c.target.withRegistry compiled.registry s)⟩
  | .error failure => ⟨compiled.notices, .error (.attributes failure)⟩

/-- Every class the element can have, and its ids as authored: compiled ones are keys, which selectors
do not name. -/
def candidate (e : Element) (attributes : List Attribute) : Style.Candidate where
  tag := Text.toLowerAscii e.tag
  classes := ((Attribute.find? attributes "class").map Attribute.tokens).getD []
  ids := Text.words (e.authored "id")

def openElement (c : Context τ) (e : Element) : WalkM τ String := do
  let attributes ← attributes c e
  let opening : Opening :=
    { tag := e.tag, attributes, rules := (candidate e attributes).keep c.rules, selfClosing := e.isLeaf }
  fun s => (c.target.openElement opening s).mapError (.format c.template)

mutual

def walkNode (c : Context τ) : Node → WalkM τ Unit
  | .text t => modify (c.target.addText t)
  | .comment _ => pure ()
  | .element e children =>
    if e.tag == variableTag then addVariable c e children
    else if e.tag == conditionTag then do
      openCondition c e
      walk c children
      closeCondition c
    else do
      let name ← openElement c e
      if !e.isLeaf then
        walk c children
        modify (c.target.closeElement name)

def walk (c : Context τ) : List Node → WalkM τ Unit
  | [] => pure ()
  | n :: rest => do
    walkNode c n
    walk c rest

end

end Walk

end Stencil
