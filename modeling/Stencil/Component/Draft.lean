import Stencil.Component.Markup
import Stencil.Component.Props
import Stencil.Component.Styled
import Stencil.Entries
import Stencil.FileMap
import Stencil.Format

/-! What has been written of a template as a component. Controls and things to press get handlers besides
their attributes. With styled components an element with rules of its own is written under an alias,
and classes are not written at all. -/
namespace Stencil.Component

structure Draft where
  format : Format
  options : ComponentOptions
  template : String
  registry : Registry := {}
  /-- The markup of the component. -/
  written : String := ""
  /-- The definitions of the styled elements. -/
  styles : String := ""
  usesHelper : Bool := false
  constants : Entries (Entries String) := []
  aliases : List String := []

namespace Draft

def isStyled (d : Draft) : Bool := d.options.css = .styledComponents

def isTyped (d : Draft) : Bool := d.options.language = .typescript

def append (d : Draft) (s : String) : Draft := { d with written := d.written ++ s }

/-- A handler attribute under a key of its own. -/
def handler (r : Registry) (tag name : String) (type : KeyType) :
    Except FormatError (Attribute × Registry) :=
  match r.register name { type, optional := true, tag := some tag } with
  | .error e => .error (.registry e)
  | .ok (key, r) =>
    .ok ({ name, text := "", type := .function, bindings := [{ key, optional := true, type }],
           omittedIfEmpty := false }, r)

/-- The handlers that an element gets: changes and a reference on controls, presses on the rest that can
be pressed. -/
def handlersFor (tag : String) (attributes : List Attribute) : List (String × KeyType) :=
  let type := ((Attribute.find? attributes "type").filter Attribute.isStatic).map fun a =>
    Text.toLowerAscii a.text
  let pressed := tag == "input" && (type == some "submit" || type == some "image")
  (if ["input", "textarea", "select"].contains tag && !pressed then
    [("onChange", .named .onChange), ("ref", .reference)] else []) ++
  (if ["button", "a"].contains tag || pressed then [("onClick", .named .onClick)] else [])

def handlers (tag : String) :
    List (String × KeyType) → Registry → Except FormatError (List Attribute × Registry)
  | [], r => .ok ([], r)
  | (name, type) :: rest, r => do
    let (a, r) ← handler r tag name type
    let (later, r) ← handlers tag rest r
    return (a :: later, r)

/-- The definition of a styled element. -/
def styleDefinition (d : Draft) (tag styledName : String) (rules : StyledRules) : String :=
  let generic := if d.isTyped && !rules.props.isEmpty then
      "<Pick<Props, " ++ Text.join " | " (rules.props.map Json.quote) ++ ">>"
    else ""
  "const " ++ styledName ++ " = styled." ++ tag ++ generic ++ "`\n" ++ rules.body ++ "\n`;\n\n"

/-- The name an element is written under and the properties its rules read; an element with rules gets a
styled definition. -/
def styleElement (d : Draft) (tagName tag : String) (rules : StyledRules) :
    (String × List String) × Draft :=
  if !d.isStyled || rules.isEmpty then ((tagName, []), d)
  else
    let (styledName, aliases) := FreshName.take d.aliases ("Styled" ++ Text.pascalCase tag)
    ((styledName, rules.props),
      { d with
        aliases
        styles := d.styles ++ d.styleDefinition tag styledName rules
        usesHelper := d.usesHelper || rules.usesHelper })

/-- Records the options that the expression of an attribute looks up. -/
def recordConstants (constants : Entries (Entries String)) (a : Attribute) : Entries (Entries String) :=
  if readsOptions a then
    a.bindings.foldl (fun table b =>
      match b.type with
      | .enumeration options => table.put b.key (Choice.table options)
      | _ => table) constants
  else constants

/-- Opens an element and returns the name to close it under. -/
def openElement (d : Draft) (tagName : String) (attributes : List Attribute)
    (rules : List Style.Rule) (selfClosing : Bool) : Reported FormatError (String × Draft) := do
  let tag := Text.toLowerAscii tagName
  let (added, registry) ← Reported.ofExcept (handlers tag (handlersFor tag attributes) d.registry)
  let attributes := attributes ++ added
  let styled := StyledRules.ofRules rules (Attribute.find? attributes "class")
  let ((name, props), d) := { d with registry }.styleElement tagName tag styled
  let rendered := attributes.filter fun a => !(d.isStyled && a.name == "class")
  let opened := "<" ++ name ++ Text.concat (props.map fun p => " " ++ p ++ "=" ++ braced p) ++
    Text.concat (rendered.map writeAttribute) ++ (if selfClosing then " />" else ">")
  ⟨rendered.flatMap (attributeNotices d.format.name d.template),
    .ok (name, { d with constants := rendered.foldl recordConstants d.constants }.append opened)⟩

def closeElement (d : Draft) (name : String) : Draft := d.append ("</" ++ name ++ ">")

def addText (d : Draft) (text : String) : Draft := d.append (escapeText text)

/-- The value of a key, or the default where the key has none. -/
def addVariable (d : Draft) (key default : String) : Draft :=
  if Text.allBlank default then d.append (braced key)
  else d.append (braced ((Expr.isDefined (.key key)).write ++ " ? " ++ key ++
    " : <React.Fragment>" ++ escapeText default ++ "</React.Fragment>"))

def openCondition (d : Draft) (c : Condition) : Draft :=
  d.append ("\x7b" ++ writeTest c ++ " ? <React.Fragment>")

def closeCondition (d : Draft) : Draft := d.append "</React.Fragment> : null\x7d"

def cssPath (d : Draft) : String := "css/" ++ d.template ++ ".css"

def imports (d : Draft) (css : String) : String :=
  "import React from 'react';\n" ++
  (match d.options.css with
    | .styledComponents =>
      if d.styles.isEmpty then ""
      else if d.usesHelper then "import styled, \x7b css \x7d from 'styled-components';\n"
      else "import styled from 'styled-components';\n"
    | .importCss => if Text.allBlank css then "" else "import '../" ++ d.cssPath ++ "';\n"
    | .none => "") ++ "\n"

def constantsDefinition (d : Draft) : String :=
  if d.constants.isEmpty then ""
  else
    let table := Json.object (d.constants.map fun (key, options) => (key, options.toJson))
    "const constants = " ++ table.compact ++ ";\n\n"

/-- The component itself; several roots are held together by a fragment. -/
def definition (d : Draft) (multipleRoots : Bool) : String :=
  let name := Text.pascalCase d.template
  let markup := if multipleRoots then
      "<React.Fragment>" ++ Text.trim d.written ++ "</React.Fragment>"
    else Text.trim d.written
  "const " ++ name ++ " = (" ++ parameters d.registry ++ (if d.isTyped then ": Props" else "") ++
    ") => (\n  " ++ markup ++ "\n);\n\nexport default " ++ name ++ ";\n"

def program (d : Draft) (css : String) (multipleRoots : Bool) : String :=
  d.imports css ++ (if d.isTyped then propsDeclaration d.registry else "") ++ d.styles ++
    d.constantsDefinition ++ d.definition multipleRoots

def files (d : Draft) (css : String) (multipleRoots : Bool) : FileMap :=
  let path := d.format.name ++ "/" ++ d.template ++ "." ++ d.options.language.fileExtension
  let component := FileMap.insert [] path (d.program css multipleRoots)
  if d.options.css = .importCss ∧ Text.allBlank css = false then component.insert d.cssPath css
  else component

end Draft

end Stencil.Component
