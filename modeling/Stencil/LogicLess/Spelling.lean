import Stencil.Format
import Stencil.LogicLess.Piece

/-! How the two dialects spell conditional text. Mustache has no "or" and no comparison: alternatives are
nested in the inverted sections of the keys before, and an enumeration is its value, which a table of
the options maps beforehand. -/
namespace Stencil.LogicLess

namespace Mustache

def value (key : String) : String := "\x7b\x7b" ++ key ++ "\x7d\x7d"

/-- Without escaping. -/
def rawValue (key : String) : String := "\x7b\x7b\x7b" ++ key ++ "\x7d\x7d\x7d"

def openSection (key : String) : String := "\x7b\x7b#" ++ key ++ "\x7d\x7d"

def openInverted (key : String) : String := "\x7b\x7b^" ++ key ++ "\x7d\x7d"

def closeSection (key : String) : String := "\x7b\x7b/" ++ key ++ "\x7d\x7d"

/-- The body under the first key that is set. -/
def whenAny (body : String) : List String → String
  | [] => body
  | [key] => openSection key ++ body ++ closeSection key
  | key :: rest =>
    openSection key ++ body ++ closeSection key ++
      openInverted key ++ whenAny body rest ++ closeSection key

mutual

def spell : Piece → String
  | .text s => s
  | .value key => value key
  | .oneOf key _ lead =>
    (if isPlainLead lead then spellAll lead else whenAny (spellAll lead) [key]) ++ value key
  | .whenAny keys body => whenAny (spellAll body) keys

def spellAll : List Piece → String
  | [] => ""
  | p :: rest => spell p ++ spellAll rest

end

end Mustache

namespace ServerEmbed

def value (key : String) : String := "\x7b$" ++ key ++ "\x7d"

def openIf (test : String) : String := "<% if " ++ test ++ " %>"

def closeIf : String := "<% end_if %>"

/-- The options in turn, each with the text that stands for it. -/
def chain (key lead : String) (keyword : String) : List Choice → String
  | [] => closeIf
  | c :: rest =>
    "<% " ++ keyword ++ " $" ++ key ++ " == \"" ++ c.name ++ "\" %>" ++ lead ++ escapeQuote c.value ++
      chain key lead "else_if" rest

mutual

def spell : Piece → String
  | .text s => s
  | .value key => value key
  | .oneOf key options lead => chain key (spellAll lead) "if" options
  | .whenAny keys body =>
    openIf (Text.join " || " (keys.map ("$" ++ ·))) ++ spellAll body ++ closeIf

def spellAll : List Piece → String
  | [] => ""
  | p :: rest => spell p ++ spellAll rest

end

/-- Backslash escapes inside double quotes. -/
def escapeQuoted (s : String) : String :=
  Text.mapChars (fun c => if c = '\\' then "\\\\" else if c = '"' then "\\\"" else c.toString) s

end ServerEmbed

end Stencil.LogicLess

namespace Stencil.Dialect

open LogicLess

def spellAll : Dialect → List Piece → String
  | mustache, pieces => Mustache.spellAll pieces
  | serverEmbed, pieces => ServerEmbed.spellAll pieces

end Stencil.Dialect
