import Stencil.Attribute.Basic
import Stencil.Json.Value
import Stencil.Style.Selector

/-! The rules of one element as the body of a styled component. A selector with classes that the element
does not always have applies under the keys that add these classes; several selectors of one rule
that nest alike are one block. -/
namespace Stencil.Component

/-- What has to hold of the properties for one class. -/
inductive Term where
  | truthy (key : String)
  | equals (key name : String)
  deriving DecidableEq, Repr

namespace Term

def key : Term → String
  | truthy key => key
  | equals key _ => key

def write : Term → String
  | truthy key => "props." ++ key
  | equals key name => "props." ++ key ++ " === " ++ Json.quote name

end Term

def termFor? (token : String) (b : Binding) : Option Term :=
  match b.type with
  | .boolean =>
    if (b.ifTrue.map Text.words).any (·.contains token) then some (.truthy b.key) else none
  | .enumeration options =>
    (options.find? fun c => (Text.words c.value).contains token).map fun c => .equals b.key c.name
  | _ => none

/-- The terms that must all hold for an element to have the classes; none if no key can add one of them.
Without a class attribute the classes are taken for granted. -/
def terms? (classes : List String) (attr : Option Attribute) : Option (List Term) :=
  match attr with
  | none => some []
  | some a =>
    let missing := classes.filter fun c => !(Text.words a.text).contains c
    (missing.mapM fun token => a.bindings.findSome? (termFor? token)).map List.eraseDups

/-- The selectors of one rule that nest alike, each with its terms. -/
structure Group where
  /-- Attribute selectors and pseudo-classes of the subject. -/
  nest : String
  conditions : List (List Term)
  deriving DecidableEq, Repr

namespace Group

def isUnconditional (g : Group) : Bool := g.conditions.any List.isEmpty

def add (groups : List Group) (nest : String) (terms : List Term) : List Group :=
  match groups with
  | [] => [⟨nest, [terms]⟩]
  | g :: rest =>
    if g.nest == nest then { g with conditions := g.conditions ++ [terms] } :: rest
    else g :: add rest nest terms

/-- The groups of a selector list. Selectors with ancestors, or with classes that the element can never
have, are left out. -/
def ofSelectors (list : String) (attr : Option Attribute) : List Group :=
  (Style.splitSelectors list).foldl (fun groups text =>
    let selector := Style.Selector.parse text
    if selector.hasAncestors then groups
    else match terms? selector.subject.classes attr with
      | none => groups
      | some terms =>
        add groups (Text.concat (selector.subject.attributes ++ selector.subject.pseudos)) terms) []

end Group

/-- The option named, when the condition is one comparison of the key. -/
def soleName? (key : String) : List Term → Option String
  | [.equals k name] => if k == key then some name else none
  | _ => none

/-- The options named, when every condition is one comparison of the same key. -/
def soleKey? (conditions : List (List Term)) : Option (String × List String) :=
  match conditions with
  | [.equals key name] :: rest => (rest.mapM (soleName? key)).map fun names => (key, name :: names)
  | _ => none

def writeAll (conditions : List (List Term)) : String :=
  Text.join " || " (conditions.map fun terms =>
    let all := Text.join " && " (terms.map Term.write)
    if terms.length > 1 && conditions.length > 1 then "(" ++ all ++ ")" else all)

/-- The test that some condition holds; several options of one key are tested at once. -/
def writeConditions (conditions : List (List Term)) : String :=
  match soleKey? conditions with
  | some (key, first :: second :: rest) =>
    "[" ++ Text.join ", " ((first :: second :: rest).map Json.quote) ++ "].includes(props." ++ key ++ ")"
  | _ => writeAll conditions

/-- Lines that are not empty, two spaces deeper. -/
def indent (text : String) : String :=
  Text.join "\n" ((Text.lines text).map fun line => if line.isEmpty then "" else "  " ++ line)

inductive Block where
  | group (g : Group) (declarations : String)
  | atRule (name params : String) (inner : List Block)
  deriving Repr

namespace Block

/-- The contents of a rule, each without the line end after it. -/
def declarations (body : List Style.Rule) : String :=
  Text.join "\n" (body.map fun r => String.ofList (Text.Chars.trimRight r.render.toList))

mutual

/-- The blocks of one rule; an at-rule with nothing inside is left out. -/
def ofRule (attr : Option Attribute) : Style.Rule → List Block
  | .rule selector body =>
    if (declarations body).isEmpty then []
    else (Group.ofSelectors selector attr).map fun g => .group g (declarations body)
  | .atRule name params body =>
    match ofRules attr body with
    | [] => []
    | inner => [.atRule name params inner]
  | .decl _ _ => []

def ofRules (attr : Option Attribute) : List Style.Rule → List Block
  | [] => []
  | r :: rest => ofRule attr r ++ ofRules attr rest

end

def writeGroup (g : Group) (declarations : String) : String :=
  let block := if g.isUnconditional then declarations
    else "$\x7b(props) => (" ++ writeConditions g.conditions ++ ") && css`\n" ++
      indent declarations ++ "\n`\x7d"
  if g.nest.isEmpty then block else "&" ++ g.nest ++ " \x7b\n" ++ indent block ++ "\n\x7d"

mutual

def write : Block → String
  | .group g declarations => writeGroup g declarations
  | .atRule name params inner =>
    "@" ++ name ++ " " ++ params ++ " \x7b\n" ++ indent (Text.join "\n" (writeEach inner)) ++ "\n\x7d"

def writeEach : List Block → List String
  | [] => []
  | b :: rest => b.write :: writeEach rest

end

mutual

def conditional : Block → List Group
  | .group g _ => if g.isUnconditional then [] else [g]
  | .atRule _ _ inner => conditionalAll inner

def conditionalAll : List Block → List Group
  | [] => []
  | b :: rest => b.conditional ++ conditionalAll rest

end

end Block

structure StyledRules where
  body : String
  /-- The keys that the body reads, in order of first use. -/
  props : List String
  /-- Whether the body has conditional blocks, which need the `css` helper. -/
  usesHelper : Bool
  deriving DecidableEq, Repr

namespace StyledRules

def ofRules (rules : List Style.Rule) (attr : Option Attribute) : StyledRules :=
  let blocks := Block.ofRules attr rules
  let groups := Block.conditionalAll blocks
  { body := Text.join "\n" (Block.writeEach blocks)
    props := (groups.flatMap fun g => g.conditions.flatten.map Term.key).eraseDups
    usesHelper := !groups.isEmpty }

def isEmpty (r : StyledRules) : Bool := Text.allBlank r.body

end StyledRules

end Stencil.Component
