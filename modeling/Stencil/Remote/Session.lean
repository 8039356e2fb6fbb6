import Stencil.Remote.Message

/-! Elements at the far end of a session. Each call on a remote element is one round trip of a request
and its reply; a browser that holds its elements here answers the same messages. -/
namespace Stencil.Remote

open Markup (Element Access AccessM AccessError Undo)

/-- Elements by handle. -/
structure Browser where
  find? : String → Option Element

namespace Browser

def empty : Browser := ⟨fun _ => none⟩

def insert (b : Browser) (handle : String) (e : Element) : Browser :=
  ⟨fun h => if h = handle then some e else b.find? h⟩

def erase (b : Browser) (handle : String) : Browser :=
  ⟨fun h => if h = handle then none else b.find? h⟩

/-- What a request does to its element. The tag is answered in upper case. -/
def perform (e : Element) : Request → Response × Element
  | .tagName _ => (.tag (Text.toUpperAscii e.tag), e)
  | .attributeNames _ => (.names (e.attrs.map (·.name)), e)
  | .getAttribute _ name => (.value (e.get? name), e)
  | .getPristine _ name => (.value (e.pristine? name), e)
  | .setAttribute _ name value => let (u, e) := e.setAttribute name value; (.undo u, e)
  | .removeAttribute _ name => let (u, e) := e.removeAttribute name; (.undo u, e)
  | .addClass _ name => let (u, e) := e.addClass name; (.undo u, e)
  | .removeClass _ name => let (u, e) := e.removeClass name; (.undo u, e)

def dispatch (b : Browser) (r : Request) : Response × Browser :=
  match b.find? r.handle with
  | none => (.stale, b)
  | some e => let (response, e) := perform e r; (response, b.insert r.handle e)

end Browser

/-- A way to send a payload and get the reply. -/
structure Transport (σ : Type) where
  roundTrip : String → AccessM σ String

/-- The transport of a browser held here. A payload that does not decode is an error of the session. -/
def loopback : Transport Browser where
  roundTrip payload := fun b =>
    match Request.decode? payload with
    | none => (.error .protocol, b)
    | some request => let (response, b) := b.dispatch request; (.ok response.encode, b)

namespace Transport

variable {σ : Type}

/-- One call: the reply, unless it reports a failure. -/
def call (t : Transport σ) (request : Request) : AccessM σ Response := do
  let reply ← t.roundTrip request.encode
  match Response.decode? reply with
  | none => throw .protocol
  | some .stale => throw (.stale request.handle)
  | some (.error message) => throw (.refused request.handle message)
  | some response => return response

def unexpected {α : Type} (request : Request) (response : Response) : AccessM σ α :=
  throw (.unexpected request.shown response.shown)

def value (t : Transport σ) (request : Request) : AccessM σ (Option String) := do
  match ← t.call request with
  | .value v => return v
  | other => unexpected request other

def undo (t : Transport σ) (request : Request) : AccessM σ Undo := do
  match ← t.call request with
  | .undo u => return u
  | other => unexpected request other

/-- The element behind a handle. Tags come back in lower case. -/
def access (t : Transport σ) (handle : String) : Access σ where
  tagName := do
    match ← t.call (.tagName handle) with
    | .tag name => return Text.toLowerAscii name
    | other => unexpected (.tagName handle) other
  attributeNames := do
    match ← t.call (.attributeNames handle) with
    | .names names => return names
    | other => unexpected (.attributeNames handle) other
  attribute? name := t.value (.getAttribute handle name)
  pristine? name := t.value (.getPristine handle name)
  setAttribute name value := t.undo (.setAttribute handle name value)
  removeAttribute name := t.undo (.removeAttribute handle name)
  addClass name := t.undo (.addClass handle name)
  removeClass name := t.undo (.removeClass handle name)

end Transport

end Stencil.Remote
