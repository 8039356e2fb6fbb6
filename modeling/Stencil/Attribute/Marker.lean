import Stencil.Attribute.Basic
import Stencil.Key.Registry
import Stencil.Text.Quoted
import Stencil.Text.Search

/-! Markers in attribute values. A marker stands between double braces: a key, with a question mark if
the key is optional, and after a colon the options, which a bar divides. A double brace that is never
closed is text. -/
namespace Stencil

/-- A marker as its author wrote it, before its key is registered. -/
structure Marker where
  key : String
  optional : Bool
  /-- Absent when the marker has no colon. -/
  options : Option (List Choice)
  source : String
  deriving DecidableEq, Repr, Inhabited

inductive MarkerError where
  | blankKey (source : String)
  | emptyOption (source : String)
  | unregistered (source : String) (reason : RegistryError)
  deriving DecidableEq, Repr

namespace MarkerError

def message : MarkerError → String
  | blankKey source => "variable " ++ Text.quoted source ++ " has no key name"
  | emptyOption source => "variable " ++ Text.quoted source ++ " has an empty option"
  | unregistered source reason =>
    "variable " ++ Text.quoted source ++ " could not be registered: " ++ reason.message

end MarkerError

namespace Marker

/-- A part of an attribute value: text, or what stands between the braces of a marker. -/
inductive Segment where
  | text (content : List Char)
  | marker (inside : List Char)
  deriving DecidableEq, Repr

def opening : List Char := ['{', '{']

def closing : List Char := ['}', '}']

open Text.Chars in
/-- A marker runs from the next opening to the first closing after it; with no closing left, all that
follows is text. -/
def segments (s : List Char) : List Segment :=
  match _h : splitOnce? opening s with
  | none => [.text s]
  | some (before, rest) =>
    match _h' : splitOnce? closing rest with
    | none => [.text s]
    | some (inside, rest') => .text before :: .marker inside :: segments rest'
termination_by s.length
decreasing_by
  have h₁ := splitOnce?_length _h
  have h₂ := splitOnce?_length _h'
  simp [opening, closing] at h₁ h₂
  omega

/-- The value, or the value and its name around the word "as". -/
def choice (option : List Char) : Choice :=
  match Text.splitOnce? " as " (String.ofList option) with
  | some (value, name) => ⟨Text.trim value, Text.trim name⟩
  | none => ⟨Text.trim (String.ofList option), Text.trim (String.ofList option)⟩

def ofInside (inside : List Char) : Except MarkerError Marker :=
  let source := String.ofList (opening ++ inside ++ closing)
  let (front, options) := match Text.Chars.splitOnce? [':'] inside with
    | some (front, rest) => (front, some ((Text.Chars.pieces (· == '|') rest).map choice))
    | none => (inside, none)
  let key := Text.trim (String.ofList (front.erase '?'))
  if key.isEmpty then .error (.blankKey source)
  else if (options.getD []).any fun c => c.value.isEmpty || c.name.isEmpty then
    .error (.emptyOption source)
  else .ok { key, optional := front.contains '?', options, source }

/-- The static text of a value, trimmed, and its markers from left to right. -/
def parse (raw : String) : Except MarkerError (String × List Marker) := do
  let parts := segments raw.toList
  let text := parts.flatMap fun
    | .text content => content
    | .marker _ => []
  let markers ← (parts.filterMap fun
    | .text _ => none
    | .marker inside => some inside).mapM ofInside
  return (String.ofList (Text.Chars.trim text), markers)

/-- Two options or more make an enumeration, one a boolean, and a marker without options has the type of
plain markers. -/
def keyType (m : Marker) (plain : KeyType) : KeyType :=
  match m.options with
  | none => plain
  | some (a :: b :: rest) => .enumeration (a :: b :: rest)
  | some _ => .boolean

def ifTrue (m : Marker) : Option String :=
  match m.options with
  | some [only] => some only.value
  | _ => none

def register (m : Marker) (plain : KeyType) (tag : String) (r : Registry) :
    Except MarkerError (Binding × Registry) :=
  let type := m.keyType plain
  match r.registerMarker m.key { type, optional := m.optional, tag := some tag } with
  | .error e => .error (.unregistered m.source e)
  | .ok (key, r) => .ok ({ key, optional := m.optional, type, ifTrue := m.ifTrue }, r)

def registerAll (plain : KeyType) (tag : String) :
    List Marker → Registry → Except MarkerError (List Binding × Registry)
  | [], r => .ok ([], r)
  | m :: rest, r => do
    let (binding, r) ← m.register plain tag r
    let (bindings, r) ← registerAll plain tag rest r
    return (binding :: bindings, r)

end Marker

def readValue (raw tag : String) (plain : KeyType) (r : Registry) :
    Except MarkerError ((String × List Binding) × Registry) := do
  let (text, markers) ← Marker.parse raw
  let (bindings, r) ← Marker.registerAll plain tag markers r
  return ((text, bindings), r)

end Stencil
