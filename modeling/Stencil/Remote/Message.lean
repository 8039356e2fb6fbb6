import Stencil.Json.Fields
import Stencil.Json.Reader
import Stencil.Markup.Access
import Stencil.Text.Quoted

/-! The messages of a remote session: requests on the element behind a handle, and the replies. On the
wire a message is a compact JSON object with its variant first. -/
namespace Stencil.Remote

open Markup (Undo)

inductive Request where
  | tagName (handle : String)
  | attributeNames (handle : String)
  | getAttribute (handle name : String)
  | getPristine (handle name : String)
  | setAttribute (handle name value : String)
  | removeAttribute (handle name : String)
  | addClass (handle name : String)
  | removeClass (handle name : String)
  deriving DecidableEq, Repr

inductive Response where
  | tag (name : String)
  | names (names : List String)
  | value (value : Option String)
  | undo (undo : Undo)
  /-- The handle no longer points at an element. -/
  | stale
  | error (message : String)
  deriving DecidableEq, Repr

/-- A message record: the member that names the variant, the variant and the other members. -/
def record (tag variant : String) (members : List (String × Json)) : Json :=
  .object ((tag, .string variant) :: members)

def optional (s : Option String) : Json :=
  match s with
  | some s => .string s
  | none => .null

namespace Undo

def toJson : Undo → Json
  | .restore name value => record "op" "restore" [("name", .string name), ("value", .string value)]
  | .remove name => record "op" "remove" [("name", .string name)]
  | .addClass name => record "op" "addClass" [("class", .string name)]
  | .removeClass name => record "op" "removeClass" [("class", .string name)]
  | .nothing => record "op" "nothing" []

def ofJson? (v : Json) : Option Undo := do
  let (variant, fields) ← v.tagged? "op"
  match variant with
  | "restore" =>
    match ← fields.take? ["name", "value"] with
    | [some (.string name), some (.string value)] => some (.restore name value)
    | _ => none
  | "remove" =>
    match ← fields.take? ["name"] with
    | [some (.string name)] => some (.remove name)
    | _ => none
  | "addClass" =>
    match ← fields.take? ["class"] with
    | [some (.string name)] => some (.addClass name)
    | _ => none
  | "removeClass" =>
    match ← fields.take? ["class"] with
    | [some (.string name)] => some (.removeClass name)
    | _ => none
  | "nothing" => if fields.isUnit then some .nothing else none
  | _ => none

def encode (u : Undo) : String := (toJson u).compact

def decode? (payload : String) : Option Undo := (Json.parse? payload).bind ofJson?

end Undo

namespace Request

def handle : Request → String
  | tagName h | attributeNames h | getAttribute h _ | getPristine h _ | setAttribute h _ _
  | removeAttribute h _ | addClass h _ | removeClass h _ => h

/-- The name of the method on the wire. -/
def method : Request → String
  | tagName _ => "tagName"
  | attributeNames _ => "getAttributeNames"
  | getAttribute _ _ => "getAttribute"
  | getPristine _ _ => "getOriginalAttribute"
  | setAttribute _ _ _ => "setAttribute"
  | removeAttribute _ _ => "removeAttribute"
  | addClass _ _ => "classListAdd"
  | removeClass _ _ => "classListRemove"

/-- The arguments after the handle. -/
def arguments : Request → List (String × String)
  | tagName _ | attributeNames _ => []
  | getAttribute _ name | getPristine _ name | removeAttribute _ name => [("name", name)]
  | setAttribute _ name value => [("name", name), ("value", value)]
  | addClass _ name | removeClass _ name => [("class", name)]

def toJson (r : Request) : Json :=
  record "method" r.method
    ((("handle", r.handle) :: r.arguments).map fun (name, value) => (name, .string value))

def ofJson? (v : Json) : Option Request := do
  let (variant, fields) ← v.tagged? "method"
  let one (f : String → Request) : Option Request := do
    match ← fields.take? ["handle"] with
    | [some (.string h)] => some (f h)
    | _ => none
  let two (name : String) (f : String → String → Request) : Option Request := do
    match ← fields.take? ["handle", name] with
    | [some (.string h), some (.string n)] => some (f h n)
    | _ => none
  match variant with
  | "tagName" => one tagName
  | "getAttributeNames" => one attributeNames
  | "getAttribute" => two "name" getAttribute
  | "getOriginalAttribute" => two "name" getPristine
  | "setAttribute" =>
    match ← fields.take? ["handle", "name", "value"] with
    | [some (.string h), some (.string n), some (.string value)] => some (setAttribute h n value)
    | _ => none
  | "removeAttribute" => two "name" removeAttribute
  | "classListAdd" => two "class" addClass
  | "classListRemove" => two "class" removeClass
  | _ => none

def encode (r : Request) : String := r.toJson.compact

def decode? (payload : String) : Option Request := (Json.parse? payload).bind ofJson?

end Request

namespace Response

def toJson : Response → Json
  | tag name => record "result" "tag" [("name", .string name)]
  | names ns => record "result" "names" [("names", .array (ns.map .string))]
  | value v => record "result" "value" [("value", optional v)]
  | undo u => record "result" "undo" [("undo", Undo.toJson u)]
  | stale => record "result" "stale" []
  | error message => record "result" "error" [("message", .string message)]

def ofJson? (v : Json) : Option Response := do
  let (variant, fields) ← v.tagged? "result"
  match variant with
  | "tag" =>
    match ← fields.take? ["name"] with
    | [some (.string name)] => some (tag name)
    | _ => none
  | "names" =>
    match ← fields.take? ["names"] with
    | [some ns] => ns.strings?.map names
    | _ => none
  | "value" =>
    match ← fields.take? ["value"] with
    | [some (.string s)] => some (value (some s))
    | [some .null] | [none] => some (value none)
    | _ => none
  | "undo" =>
    match ← fields.take? ["undo"] with
    | [some u] => (Undo.ofJson? u).map undo
    | _ => none
  | "stale" => if fields.isUnit then some stale else none
  | "error" =>
    match ← fields.take? ["message"] with
    | [some (.string message)] => some (error message)
    | _ => none
  | _ => none

def encode (r : Response) : String := r.toJson.compact

def decode? (payload : String) : Option Response := (Json.parse? payload).bind ofJson?

end Response

/-! How messages read in an error: the variant with its fields, strings quoted. -/

/-- A variant with its fields. -/
def shown (variant : String) (fields : List (String × String)) : String :=
  if fields.isEmpty then variant
  else
    variant ++ " \x7b " ++ Text.join ", " (fields.map fun (name, value) => name ++ ": " ++ value) ++ " \x7d"

def Undo.shown : Undo → String
  | .restore name value => Remote.shown "Restore" [("name", Text.quoted name), ("value", Text.quoted value)]
  | .remove name => Remote.shown "Remove" [("name", Text.quoted name)]
  | .addClass name => Remote.shown "AddClass" [("class", Text.quoted name)]
  | .removeClass name => Remote.shown "RemoveClass" [("class", Text.quoted name)]
  | .nothing => "Nothing"

def Request.variant : Request → String
  | tagName _ => "TagName"
  | attributeNames _ => "GetAttributeNames"
  | getAttribute _ _ => "GetAttribute"
  | getPristine _ _ => "GetOriginalAttribute"
  | setAttribute _ _ _ => "SetAttribute"
  | removeAttribute _ _ => "RemoveAttribute"
  | addClass _ _ => "ClassListAdd"
  | removeClass _ _ => "ClassListRemove"

def Request.shown (r : Request) : String :=
  Remote.shown r.variant
    ((("handle", r.handle) :: r.arguments).map fun (name, value) => (name, Text.quoted value))

def Response.shown : Response → String
  | tag name => Remote.shown "Tag" [("name", Text.quoted name)]
  | names ns => Remote.shown "Names" [("names", "[" ++ Text.join ", " (ns.map Text.quoted) ++ "]")]
  | value (some s) => Remote.shown "Value" [("value", "Some(" ++ Text.quoted s ++ ")")]
  | value none => Remote.shown "Value" [("value", "None")]
  | undo u => Remote.shown "Undo" [("undo", Undo.shown u)]
  | stale => "Stale"
  | error message => Remote.shown "Error" [("message", Text.quoted message)]

end Stencil.Remote
