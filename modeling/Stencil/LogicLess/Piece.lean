import Stencil.Attribute.Basic
import Stencil.Text.Search

/-! Attributes as conditional text, before any dialect spells them. A separator in front of a key stands
only if something before the key does. -/
namespace Stencil.LogicLess

inductive Piece where
  | text (content : String)
  | value (key : String)
  /-- The value of the option that the key names, behind a lead. -/
  | oneOf (key : String) (options : List Choice) (lead : List Piece)
  | whenAny (keys : List String) (body : List Piece)
  deriving Repr, Inhabited

/-- Only the quote is written as a reference. -/
def escapeQuote (s : String) : String :=
  Text.mapChars (fun c => if c = '"' then "&quot;" else c.toString) s

def isPlainLead : List Piece → Bool
  | [] => true
  | [.text s] => Text.allBlank s
  | _ => false

/-- A lead that stands only if the key is set, unless it is plain. -/
def leadFor (key : String) (lead : List Piece) : List Piece :=
  if isPlainLead lead then lead else [.whenAny [key] lead]

def bindingPieces (a : Attribute) (b : Binding) (lead : List Piece) : List Piece :=
  match b.type with
  | .boolean => [.whenAny [b.key] (lead ++ [.text (escapeQuote (b.ifTrue.getD a.name))])]
  | .enumeration options => [.oneOf b.key options lead]
  | _ => leadFor b.key lead ++ [.value b.key]

def separator (a : Attribute) (earlier : List String) : List Piece :=
  if !a.text.isEmpty then [.text " "]
  else if earlier.isEmpty then [] else [.whenAny earlier [.text " "]]

def bindingsPieces (a : Attribute) (earlier : List String) : List Binding → List Piece
  | [] => []
  | b :: rest =>
    bindingPieces a b (separator a earlier) ++ bindingsPieces a (earlier ++ [b.key]) rest

def attributePieces (a : Attribute) : List Piece :=
  let written := .text (" " ++ a.name ++ "=\"" ++ escapeQuote a.text) ::
    bindingsPieces a [] a.bindings ++ [.text "\""]
  if a.omittedIfEmpty && !a.bindings.isEmpty then [.whenAny (a.bindings.map (·.key)) written]
  else written

end Stencil.LogicLess
