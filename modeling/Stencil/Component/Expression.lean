import Stencil.Attribute.Basic
import Stencil.Condition
import Stencil.Json.Value

/-! The expressions that component attributes hold, and how they are written. Their variables are the
keys of the template; `constants` maps the option names of each enumeration to values. -/
namespace Stencil.Component

inductive Expr where
  | key (name : String)
  /-- The value of the option that the key names. -/
  | option (key : String)
  | literal (value : String)
  | undefined
  | isDefined (e : Expr)
  | any (operands : List Expr)
  | choose (test ifTrue ifFalse : Expr)
  | append (a b : Expr)
  | template (text : String) (substitutions : List Expr)
  | trimStart (e : Expr)
  deriving Repr, Inhabited

namespace Expr

/-- Text inside a template literal: backslashes, backticks and openings of substitutions are escaped. -/
def escapeTemplate : List Char → List Char
  | [] => []
  | '\\' :: s => '\\' :: '\\' :: escapeTemplate s
  | '\x60' :: s => '\\' :: '\x60' :: escapeTemplate s
  | '$' :: '{' :: s => '\\' :: '$' :: '{' :: escapeTemplate s
  | c :: s => c :: escapeTemplate s

mutual

def write : Expr → String
  | .key name => name
  | .option k => "constants." ++ k ++ "[" ++ k ++ "]"
  | .literal value => Json.quote value
  | .undefined => "undefined"
  | .isDefined e => e.write ++ " !== undefined"
  | .any operands => Text.join " || " (writeAll operands)
  | .choose test ifTrue ifFalse => test.write ++ " ? " ++ ifTrue.write ++ " : " ++ ifFalse.write
  | .append a b => a.write ++ " + " ++ b.write
  | .template text substitutions =>
    "`" ++ String.ofList (escapeTemplate text.toList) ++
      Text.concat ((writeAll substitutions).map fun s => "$\x7b" ++ s ++ "\x7d") ++ "`"
  | .trimStart e => e.write ++ ".trimStart()"

def writeAll : List Expr → List String
  | [] => []
  | e :: rest => e.write :: writeAll rest

end

end Expr

/-- A boolean is set when it holds, any other key when it is defined. -/
def isSet (b : Binding) : Expr := if b.isBoolean then .key b.key else .isDefined (.key b.key)

def soleValue (a : Attribute) (b : Binding) : Expr :=
  match b.type, b.ifTrue with
  | .boolean, some literal =>
    if a.type = .boolean then .key b.key else .choose (.key b.key) (.literal literal) .undefined
  | .enumeration _, _ => .option b.key
  | _, _ => .key b.key

def addition (a : Attribute) (lead : String) (b : Binding) : Expr :=
  match b.type with
  | .boolean => .choose (.key b.key) (.literal (lead ++ b.ifTrue.getD a.name)) (.literal "")
  | .enumeration _ =>
    .choose (.isDefined (.option b.key)) (.append (.literal lead) (.option b.key)) (.literal "")
  | _ => .choose (.isDefined (.key b.key)) (.append (.literal lead) (.key b.key)) (.literal "")

/-- Every binding but the first of an otherwise empty attribute has a space in front. -/
def additions (a : Attribute) : List Binding → List Expr
  | [] => []
  | b :: rest =>
    addition a (if a.text.isEmpty then "" else " ") b :: rest.map (addition a " ")

/-- The text of an attribute with its bindings. A first binding that adds nothing leaves the space of
the next one in front, which is cut off. -/
def boundText (a : Attribute) : Expr :=
  let text := .template a.text (additions a a.bindings)
  if a.text.isEmpty && a.bindings.length > 1 then .trimStart text else text

def boundValue (a : Attribute) : Expr :=
  match a.bindings, a.text.isEmpty with
  | [b], true => soleValue a b
  | _, _ =>
    if a.omittedIfEmpty then .choose (.any (a.bindings.map isSet)) (boundText a) .undefined
    else boundText a

def writeTest (c : Condition) : String :=
  match c.comparison with
  | none => (Expr.isDefined (.key c.key)).write
  | some (.equals, value) => c.key ++ " === " ++ Json.quote value
  | some (.notEquals, value) => c.key ++ " !== " ++ Json.quote value

end Stencil.Component
