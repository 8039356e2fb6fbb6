import Stencil.Text.Blank

/-! JSON values and their two written forms. An object is the list of its members in order; a number is
its literal. Strings escape the quote, the backslash and the controls below the space, the ones with a
short escape by it; everything else stands for itself. -/
namespace Stencil

inductive Json where
  | null
  | bool (value : Bool)
  | number (literal : String)
  | string (value : String)
  | array (items : List Json)
  | object (members : List (String × Json))
  deriving Repr, Inhabited

namespace Json

def hexDigit (n : Nat) : Char :=
  if n < 10 then Char.ofNat (48 + n) else Char.ofNat (87 + n)

/-- How one character is written inside a string. -/
def escape (c : Char) : List Char :=
  if c = '"' then ['\\', '"']
  else if c = '\\' then ['\\', '\\']
  else if c = '\x08' then ['\\', 'b']
  else if c = '\x0c' then ['\\', 'f']
  else if c = '\n' then ['\\', 'n']
  else if c = '\r' then ['\\', 'r']
  else if c = '\t' then ['\\', 't']
  else if c.toNat < 32 then
    ['\\', 'u', '0', '0', hexDigit (c.toNat / 16), hexDigit (c.toNat % 16)]
  else [c]

/-- A string in double quotes. -/
def quote (s : String) : String :=
  "\"" ++ String.ofList (s.toList.flatMap escape) ++ "\""

mutual

/-- Without any space. -/
def compact : Json → String
  | .null => "null"
  | .bool b => if b then "true" else "false"
  | .number n => n
  | .string s => quote s
  | .array items => "[" ++ Text.join "," (compactItems items) ++ "]"
  | .object members => "\x7b" ++ Text.join "," (compactMembers members) ++ "\x7d"

def compactItems : List Json → List String
  | [] => []
  | v :: rest => v.compact :: compactItems rest

def compactMembers : List (String × Json) → List String
  | [] => []
  | (k, v) :: rest => (quote k ++ ":" ++ v.compact) :: compactMembers rest

end

/-- Items on lines of their own, two spaces deeper than the brackets. -/
def block (opening closing : String) (margin : String) : List String → String
  | [] => opening ++ closing
  | items =>
    let inner := margin ++ "  "
    opening ++ "\n" ++ inner ++ Text.join (",\n" ++ inner) items ++ "\n" ++ margin ++ closing

mutual

/-- The form for people, for a value that starts on a line indented by `margin`. -/
def prettyAt (margin : String) : Json → String
  | .array items => block "[" "]" margin (prettyItems (margin ++ "  ") items)
  | .object members => block "\x7b" "\x7d" margin (prettyMembers (margin ++ "  ") members)
  | .null => "null"
  | .bool b => if b then "true" else "false"
  | .number n => n
  | .string s => quote s

def prettyItems (margin : String) : List Json → List String
  | [] => []
  | v :: rest => v.prettyAt margin :: prettyItems margin rest

def prettyMembers (margin : String) : List (String × Json) → List String
  | [] => []
  | (k, v) :: rest => (quote k ++ ": " ++ v.prettyAt margin) :: prettyMembers margin rest

end

def pretty (v : Json) : String := prettyAt "" v

/-- The first member of this name. -/
def member? (v : Json) (name : String) : Option Json :=
  match v with
  | .object members => (members.find? (·.1 == name)).map (·.2)
  | _ => none

/-- The members of an object. -/
def members? : Json → Option (List (String × Json))
  | .object members => some members
  | _ => none

def string? : Json → Option String
  | .string s => some s
  | _ => none

def bool? : Json → Option Bool
  | .bool b => some b
  | _ => none

def array? : Json → Option (List Json)
  | .array items => some items
  | _ => none

end Json

end Stencil
