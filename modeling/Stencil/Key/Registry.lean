import Stencil.Key.FreshName
import Stencil.Key.KeyType

/-! The keys of one template in one format. Names are handed out in the order of registration and never
twice; a name that the template itself binds is reserved, and markers of that name share one key. -/
namespace Stencil

structure KeyDefinition where
  type : KeyType
  optional : Bool
  /-- The tag of the element the key was first registered for, when known. -/
  tag : Option String
  deriving DecidableEq, Repr, Inhabited

structure RegistryError where
  type : KeyType
  deriving DecidableEq, Repr

def RegistryError.message (e : RegistryError) : String :=
  "refusing to register a blank dynamic key name (type " ++ e.type.shown ++ ")"

structure Registry where
  /-- In the order of registration, one entry for a name. -/
  keys : List (String × KeyDefinition) := []
  reserved : List String := []
  deriving DecidableEq, Repr, Inhabited

namespace Registry

def empty : Registry := {}

def names (r : Registry) : List String := r.keys.map (·.1)

def get? (r : Registry) (name : String) : Option KeyDefinition := (r.keys.find? (·.1 == name)).map (·.2)

def contains (r : Registry) (name : String) : Bool := r.names.contains name

def isReserved (r : Registry) (name : String) : Bool := r.reserved.contains (Text.trim name)

/-- Binds a name for the whole template; a blank name is ignored. -/
def reserve (r : Registry) (name : String) : Registry :=
  if (Text.trim name).isEmpty then r else { r with reserved := Text.trim name :: r.reserved }

def update (r : Registry) (name : String) (f : KeyDefinition → KeyDefinition) : Registry :=
  { r with keys := r.keys.map fun (n, d) => (n, if n == name then f d else d) }

/-- A name without the blanks around it, of which something must be left. -/
def checkedName (name : String) (type : KeyType) : Except RegistryError String :=
  if (Text.trim name).isEmpty then .error ⟨type⟩ else .ok (Text.trim name)

/-- Adds a key under the first free form of its name. -/
def register (r : Registry) (name : String) (d : KeyDefinition) :
    Except RegistryError (String × Registry) := do
  let name ← checkedName name d.type
  let free := FreshName.pick r.names name
  return (free, { r with keys := r.keys ++ [(free, d)] })

/-- The key of that name, registered if there is none. It is required as soon as one sharer requires
it. -/
def share (r : Registry) (name : String) (d : KeyDefinition) :
    Except RegistryError (String × Registry) := do
  let name ← checkedName name d.type
  if r.contains name then
    return (name, r.update name fun old => { old with optional := old.optional && d.optional })
  else r.register name d

/-- The key of a marker: a reserved key that is registered already takes on the marker's type, and any
other marker registers a key of its own. -/
def registerMarker (r : Registry) (name : String) (d : KeyDefinition) :
    Except RegistryError (String × Registry) := do
  let name ← checkedName name d.type
  if r.reserved.contains name && r.contains name then
    return (name, r.update name fun old =>
      { type := d.type, optional := old.optional && d.optional, tag := old.tag.or d.tag })
  else r.register name d

end Registry

end Stencil
