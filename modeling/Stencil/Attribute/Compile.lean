import Stencil.Attribute.Defaults
import Stencil.Attribute.Marker
import Stencil.Markup.Access

/-! The attributes of one element, compiled: every authored attribute in the order of the names, its
markers registered; then the attributes that hold ids, whose ids become keys shared by the whole
template; then what the tag offers besides. Keys that were registered before a failure stay
registered. -/
namespace Stencil

open Markup (Access AccessM AccessError)

inductive AttributeError where
  | duplicate (name : String)
  | marker (attributeName : String) (reason : MarkerError)
  /-- An attribute for ids with a word that gives no key. -/
  | unusableId (attributeName value : String)
  | registry (reason : RegistryError)
  | access (reason : AccessError)
  deriving DecidableEq, Repr

def AttributeError.message : AttributeError → String
  | duplicate name => "duplicate attribute name " ++ Text.quoted name
  | marker name reason => "in attribute " ++ Text.quoted name ++ ": " ++ reason.message
  | unusableId name value => name ++ "=" ++ Text.quoted value ++ " does not contain a usable id"
  | registry reason => reason.message
  | access reason => reason.message

/-- An attribute error with the template and the element it arose in. -/
structure AttributeFailure where
  template : String
  snippet : String
  reason : AttributeError
  deriving DecidableEq, Repr

def AttributeFailure.message (f : AttributeFailure) : String :=
  "template " ++ Text.quoted f.template ++ ": " ++ f.reason.message ++ " in `" ++ f.snippet ++ "`"

namespace Attribute

variable {σ α ε : Type}

/-- What a compilation works on: the element behind an access, and the keys of the template. -/
structure Compiling (σ : Type) where
  node : σ
  registry : Registry
  notices : List Notice := []

abbrev CompileM (σ : Type) := ExceptT AttributeError (StateM (Compiling σ))

def onNode (x : AccessM σ α) : CompileM σ α := fun s =>
  match x s.node with
  | (.ok a, node) => (.ok a, { s with node })
  | (.error e, node) => (.error (.access e), { s with node })

def onRegistry (wrap : ε → AttributeError) (f : Registry → Except ε (α × Registry)) :
    CompileM σ α := fun s =>
  match f s.registry with
  | .ok (a, registry) => (.ok a, { s with registry })
  | .error e => (.error (wrap e), s)

def plainType (name : String) : KeyType :=
  if name == "aria-current" then .named .ariaCurrent else .string

def authored (a : Access σ) (tag : String) : List String → CompileM σ (List Attribute)
  | [] => return []
  | name :: rest => do
    let raw ← onNode (a.read name)
    let (text, bindings) ← onRegistry (.marker name) (readValue raw tag (plainType name))
    let later ← authored a tag rest
    return { name, text, type := dataTypeFor tag name, bindings, omittedIfEmpty := false } :: later

/-- Attributes whose words are ids of elements. -/
def idAttributes : List String := ["id", "for", "aria-controls", "aria-labelledby", "aria-describedby"]

/-- One optional key for each id, the same key wherever the id occurs in the template. -/
def idBindings (a : Attribute) (tag : String) : List String → CompileM σ (List Binding)
  | [] => return []
  | id :: rest => do
    let name := Text.camelCase id
    if name.isEmpty then throw (.unusableId a.name a.text)
    let key ← onRegistry .registry
      (·.share name { type := .string, optional := true, tag := some tag })
    let later ← idBindings a tag rest
    return { key, optional := true, type := .string } :: later

/-- Replaces the authored ids of the named attributes by keys. -/
def bindIds (tag : String) : List String → List Attribute → CompileM σ (List Attribute)
  | [], attributes => return attributes
  | name :: rest, attributes => do
    match find? attributes name with
    | none => bindIds tag rest attributes
    | some a =>
      if a.text.isEmpty then bindIds tag rest attributes
      else
        let bindings ← idBindings a tag (Text.words a.text)
        bindIds tag rest
          (put attributes { a with text := "", type := .string, bindings, omittedIfEmpty := true })

def withDefaults (tag : String) (attributes : List Attribute) : CompileM σ (List Attribute) := fun s =>
  match Default.applyAll tag (Default.forTag tag attributes) attributes s.registry with
  | (.error e, registry) => (.error (.registry e), { s with registry })
  | (.ok full, registry) =>
    (.ok (Default.omitEmptyLimit tag (Default.literal? attributes "type") full),
      { s with registry, notices := s.notices ++ Default.notices tag attributes })

/-- The first name that occurs again, in the order of the second occurrences. -/
def repeated? (seen : List String) : List String → Option String
  | [] => none
  | name :: rest => if seen.contains name then some name else repeated? (name :: seen) rest

def sortNames (names : List String) : List String := names.mergeSort fun a b => decide (a ≤ b)

def compileAll (a : Access σ) (tag : String) : CompileM σ (List Attribute) := do
  let names ← onNode a.attributeNames
  let attributes ← authored a tag (sortNames names)
  let attributes ← bindIds tag idAttributes attributes
  let attributes ← withDefaults tag attributes
  match repeated? [] (attributes.map (·.name)) with
  | some name => throw (.duplicate name)
  | none => return attributes

/-- A reading that gives `fallback` where it fails. -/
def orElse (x : AccessM σ α) (fallback : α) : StateM σ α := fun s =>
  match x s with
  | (.ok a, s) => (a, s)
  | (.error _, s) => (fallback, s)

/-- The opening tag as far as it can be read, for messages. -/
def describe (a : Access σ) (tag : String) : StateM σ String := do
  let names ← orElse a.attributeNames []
  let written ← names.mapM fun name => do
    return " " ++ name ++ "=\"" ++ (← orElse (a.read name) "") ++ "\""
  return "<" ++ tag ++ Text.concat written ++ ">"

def compile (a : Access σ) (tag template : String) :
    ExceptT AttributeFailure (StateM (Compiling σ)) (List Attribute) := fun s =>
  match compileAll a (Text.toLowerAscii tag) s with
  | (.ok attributes, s) => (.ok attributes, s)
  | (.error reason, s) =>
    let (snippet, node) := describe a tag s.node
    (.error { template, snippet, reason }, { s with node })

end Attribute

end Stencil
