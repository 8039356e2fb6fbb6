import Stencil.Condition
import Stencil.Entries
import Stencil.FileMap
import Stencil.LogicLess.Spelling
import Stencil.Notice

/-! What has been written of a template in a logic-less format. Besides its text a Mustache template has
a table that maps the option names of each enumeration to their values. -/
namespace Stencil.LogicLess

/-- Values of options by key and option name. -/
abbrev Lookup := Entries (Entries String)

namespace Lookup

def record (lookup : Lookup) (a : Attribute) : Lookup :=
  a.bindings.foldl (fun table b =>
    match b.type with
    | .enumeration options => table.put b.key (Choice.table options)
    | _ => table) lookup

def toJson (lookup : Lookup) : Json :=
  .object (lookup.map fun (key, table) => (key, table.toJson))

def ofJson? (v : Json) : Option Lookup := do
  let members ← v.members?
  members.mapM fun (key, table) => (Entries.ofJson? table).map fun t => (key, t)

/-- Replaces the option name that each key of the table has by its value. -/
def apply (lookup : Lookup) (values : Entries String) : Entries String :=
  lookup.foldl (fun values (key, table) => values.update key fun v => (table.get? v).getD v) values

end Lookup

structure Draft where
  format : Format
  dialect : Dialect
  template : String
  registry : Registry := {}
  written : String := ""
  /-- Keys written without escaping, in order of first use. -/
  unescaped : List String := []
  lookup : Lookup := []
  /-- The keys of the open conditions, the innermost first. -/
  conditions : List String := []

namespace Draft

def append (d : Draft) (s : String) : Draft := { d with written := d.written ++ s }

def fileExtension (d : Draft) : String :=
  match d.format with
  | .twigEmbed => "twig"
  | .silverstripeComponents => "ss"
  | _ => "mustache"

def openElement (d : Draft) (tag : String) (attributes : List Attribute) (selfClosing : Bool) : Draft :=
  let lookup := match d.dialect with
    | .mustache => attributes.foldl Lookup.record d.lookup
    | .serverEmbed => d.lookup
  let spelled := Text.concat (attributes.map fun a => d.dialect.spellAll (attributePieces a))
  { d with lookup }.append ("<" ++ tag ++ spelled ++ if selfClosing then "/>" else ">")

def closeElement (d : Draft) (tag : String) : Draft := d.append ("</" ++ tag ++ ">")

def addText (d : Draft) (text : String) : Draft := d.append text

/-- The value may hold markup, so Mustache does not escape it; there is no default. -/
def addVariable (d : Draft) (key : String) : Draft :=
  match d.dialect with
  | .mustache =>
    let unescaped := if d.unescaped.contains key then d.unescaped else d.unescaped ++ [key]
    { d with unescaped }.append (Mustache.rawValue key)
  | .serverEmbed => d.append (ServerEmbed.value key)

/-- The text that opens a condition; Mustache has no comparisons. -/
def opening (d : Draft) (c : Condition) : Except FormatError String :=
  match d.dialect, c.comparison with
  | .mustache, none => .ok (Mustache.openSection c.key)
  | .mustache, some _ => .error (.unsupportedCondition d.format.name c.key)
  | .serverEmbed, none => .ok (ServerEmbed.openIf ("$" ++ c.key))
  | .serverEmbed, some (comparison, value) =>
    let operator := match comparison with
      | .equals => "=="
      | .notEquals => "!="
    .ok (ServerEmbed.openIf
      ("$" ++ c.key ++ " " ++ operator ++ " \"" ++ ServerEmbed.escapeQuoted value ++ "\""))

def openCondition (d : Draft) (c : Condition) : Except FormatError Draft := do
  let text ← d.opening c
  return { d with conditions := c.key :: d.conditions }.append text

/-- Closes the innermost condition; with none open there is only a notice. -/
def closeCondition (d : Draft) : List Notice × Draft :=
  match d.conditions with
  | [] => ([.conditionNotOpen d.format.name], d)
  | key :: conditions =>
    let text := match d.dialect with
      | .mustache => Mustache.closeSection key
      | .serverEmbed => ServerEmbed.closeIf
    ([], { d with conditions }.append text)

/-- A comment that lists the keys written without escaping. -/
def unescapedNote (keys : List String) : String :=
  "\x7b\x7b! DEVELOPER NOTE: this template uses triple braces, which disable HTML escaping.\n" ++
  "    Make sure these variables are escaped before rendering:\n     - " ++
  Text.join "\n     - " keys ++ "\n" ++
  "    They are unescaped so that values can hold markup such as " ++
  "<span lang=\"mi\">Māori</span>. \x7d\x7d\n\n"

def files (d : Draft) : FileMap :=
  let path := d.format.name ++ "/" ++ d.template
  let note := if d.dialect = .mustache ∧ d.unescaped ≠ [] then unescapedNote d.unescaped else ""
  let page := FileMap.insert [] (path ++ "." ++ d.fileExtension) (Text.trim (note ++ d.written))
  if d.lookup.isEmpty then page else page.insert (path ++ ".lookup.json") (Lookup.toJson d.lookup).pretty

end Draft

end Stencil.LogicLess
