import Stencil.Key.KeyType

/-! Compiled attributes: the static text of an attribute and the dynamic keys bound into it. -/
namespace Stencil

/-- A dynamic key bound into an attribute. -/
structure Binding where
  key : String
  optional : Bool
  type : KeyType
  /-- For a boolean key, the text that stands when it holds. -/
  ifTrue : Option String := none
  deriving DecidableEq, Repr, Inhabited

namespace Binding

def isBoolean (b : Binding) : Bool := b.type == .boolean

/-- The words that the binding can put into its attribute. -/
def tokens (b : Binding) : List String :=
  b.ifTrue.toList.flatMap Text.words ++ (b.type.options?.getD []).flatMap fun c => Text.words c.value

def toJson (b : Binding) : Json :=
  .object ([("key", .string b.key), ("optional", .bool b.optional), ("type", b.type.toJson)] ++
    b.ifTrue.toList.map fun v => ("ifTrueValue", .string v))

def ofJson? (v : Json) : Option Binding := do
  match ← (← v.fields?).take? ["key", "optional", "type", "ifTrueValue"] with
  | [some (.string key), some (.bool optional), some type, ifTrue] =>
    let type ← KeyType.ofJson? type
    match ifTrue with
    | none | some .null => some { key, optional, type }
    | some (.string text) => some { key, optional, type, ifTrue := some text }
    | _ => none
  | _ => none

end Binding

structure Attribute where
  name : String
  /-- The static text, every marker removed. -/
  text : String
  type : KeyType
  bindings : List Binding
  omittedIfEmpty : Bool
  deriving DecidableEq, Repr, Inhabited

namespace Attribute

def isStatic (a : Attribute) : Bool := a.bindings.isEmpty

/-- Every word that the attribute can ever hold. -/
def tokens (a : Attribute) : List String := Text.words a.text ++ a.bindings.flatMap Binding.tokens

def find? (attributes : List Attribute) (name : String) : Option Attribute :=
  attributes.find? (·.name == name)

/-- The attributes with `a` in place of the first one of its name, or at the end. -/
def put (attributes : List Attribute) (a : Attribute) : List Attribute :=
  match attributes with
  | [] => [a]
  | b :: rest => if b.name == a.name then a :: rest else b :: put rest a

def toJson (a : Attribute) : Json :=
  .object [("key", .string a.name), ("value", .string a.text), ("dataType", a.type.toJson),
    ("dynamicKeys", .array (a.bindings.map Binding.toJson)),
    ("isOmittedIfEmpty", .bool a.omittedIfEmpty)]

def ofJson? (v : Json) : Option Attribute := do
  match ← (← v.fields?).take? ["key", "value", "dataType", "dynamicKeys", "isOmittedIfEmpty"] with
  | [some (.string name), some (.string text), some type, some (.array bindings),
      some (.bool omittedIfEmpty)] =>
    some { name, text, type := ← KeyType.ofJson? type, bindings := ← bindings.mapM Binding.ofJson?,
           omittedIfEmpty }
  | _ => none

end Attribute

end Stencil
