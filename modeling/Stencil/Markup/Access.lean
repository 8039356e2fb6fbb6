import Stencil.Markup.Node

/-! Access to the attributes of one element, wherever it lives. Every change hands back the change that
reverses it. The state `σ` is what the access runs on: the element itself, or the far end of a session,
where every call may fail. -/
namespace Stencil.Markup

/-- The reverse of one attribute change. -/
inductive Undo where
  | restore (name value : String)
  | remove (name : String)
  | addClass (name : String)
  | removeClass (name : String)
  | nothing
  deriving DecidableEq, Repr

/-- Why an access failed. Nothing of this can happen to an element at hand. -/
inductive AccessError where
  | stale (handle : String)
  | refused (handle message : String)
  | transport (message : String)
  | protocol
  | unexpected (request response : String)
  deriving DecidableEq, Repr

namespace AccessError

def message : AccessError → String
  | stale handle => "Remote element " ++ handle ++ " is gone"
  | refused handle reason => "Remote element " ++ handle ++ " failed: " ++ reason
  | transport reason => "Remote transport failed: " ++ reason
  | protocol => "Remote protocol error"
  | unexpected request response => "Unexpected remote response to " ++ request ++ ": " ++ response

end AccessError

/-- A computation over the state of an access; the state survives a failure. -/
abbrev AccessM (σ : Type) := ExceptT AccessError (StateM σ)

structure Access (σ : Type) where
  tagName : AccessM σ String
  /-- In source order. -/
  attributeNames : AccessM σ (List String)
  attribute? : String → AccessM σ (Option String)
  /-- The value before the first change to the attribute, if there was one. -/
  pristine? : String → AccessM σ (Option String)
  setAttribute : String → String → AccessM σ Undo
  removeAttribute : String → AccessM σ Undo
  addClass : String → AccessM σ Undo
  removeClass : String → AccessM σ Undo

namespace Access

variable {σ : Type}

def applyUndo (a : Access σ) : Undo → AccessM σ Unit
  | .restore name value => do let _ ← a.setAttribute name value
  | .remove name => do let _ ← a.removeAttribute name
  | .addClass name => do let _ ← a.addClass name
  | .removeClass name => do let _ ← a.removeClass name
  | .nothing => pure ()

/-- An attribute as its author wrote it: the value before any change wins unless it is empty, and a
missing attribute is empty. -/
def read (a : Access σ) (name : String) : AccessM σ String := do
  match ← a.pristine? name with
  | some pristine =>
    if pristine.isEmpty then return (← a.attribute? name).getD "" else return pristine
  | none => return (← a.attribute? name).getD ""

end Access

namespace Element

def authored (e : Element) (name : String) : String :=
  match e.pristine? name with
  | some pristine => if pristine.isEmpty then (e.get? name).getD "" else pristine
  | none => (e.get? name).getD ""

/-- Keeps the present value as the pristine one, unless one is kept already. -/
def remember (e : Element) (name : String) : Element :=
  match e.pristine? name, e.get? name with
  | none, some value => { e with pristine := e.pristine ++ [⟨name, value⟩] }
  | _, _ => e

def setAttribute (e : Element) (name value : String) : Undo × Element :=
  let undo := match e.get? name with
    | some previous => .restore name previous
    | none => .remove name
  (undo, (e.remember name).put name value)

def removeAttribute (e : Element) (name : String) : Undo × Element :=
  let undo := match e.get? name with
    | some previous => .restore name previous
    | none => .nothing
  (undo, (e.remember name).erase name)

def setClasses (e : Element) (classes : List String) : Element :=
  (e.remember "class").put "class" (Text.join " " classes)

def addClass (e : Element) (name : String) : Undo × Element :=
  if e.classList.contains name then (.nothing, e)
  else (.removeClass name, e.setClasses (e.classList ++ [name]))

def removeClass (e : Element) (name : String) : Undo × Element :=
  if e.classList.contains name then (.addClass name, e.setClasses (e.classList.filter (· != name)))
  else (.nothing, e)

end Element

namespace Access

def total {σ α : Type} (f : σ → α × σ) : AccessM σ α := ExceptT.lift (m := StateM σ) fun s => f s

def ofElement : Access Element where
  tagName := total fun e => (e.tag, e)
  attributeNames := total fun e => (e.attrs.map (·.name), e)
  attribute? name := total fun e => (e.get? name, e)
  pristine? name := total fun e => (e.pristine? name, e)
  setAttribute name value := total fun e => e.setAttribute name value
  removeAttribute name := total fun e => e.removeAttribute name
  addClass name := total fun e => e.addClass name
  removeClass name := total fun e => e.removeClass name

end Access

end Stencil.Markup
