import Stencil.Entries
import Stencil.Json.Reader

/-! The part of JavaScript that component attributes are written in: how an expression is cut into tokens,
how operators group them, and what it comes to. Reading keeps a stack of the constructs that are still
open, so that one token after the other is taken in; anything outside of this part is not read, and an
expression that would throw, or leave this part, has no value. -/
namespace Stencil.Script

/-- The binary operators, from the loosest to the tightest. -/
inductive Op where
  | either
  | differs
  | plus
  deriving DecidableEq, Repr

def Op.strength : Op → Nat
  | either => 1
  | differs => 2
  | plus => 3

/-- A template literal is a `chunk` of text, extended by each substitution and the text behind it. -/
inductive Term where
  | name (s : String)
  | string (value : String)
  | chunk (text : String)
  | extend (front inner : Term) (text : String)
  | member (object : Term) (property : String)
  | index (object property : Term)
  | call (function : Term)
  | binary (op : Op) (a b : Term)
  | choose (test ifTrue ifFalse : Term)
  deriving DecidableEq, Repr

/-! Tokens -/

def isSpace (c : Char) : Bool := (Text.isBlank c && c.toNat != 0x85) || c.toNat == 0xFEFF

/-- Characters that go on with a name; beyond ASCII every one that is no space counts. -/
def isNameChar (c : Char) : Bool :=
  c.isAlphanum || c == '_' || c == '$' || (127 < c.toNat && !isSpace c)

def startsName (c : Char) : Bool := isNameChar c && !c.isDigit

def reservedWords : List String :=
  ["arguments", "await", "break", "case", "catch", "class", "const", "continue", "debugger", "default",
    "delete", "do", "else", "enum", "eval", "export", "extends", "false", "finally", "for", "function",
    "if", "implements", "import", "in", "instanceof", "interface", "let", "new", "null", "package",
    "private", "protected", "public", "return", "static", "super", "switch", "this", "throw", "true",
    "try", "typeof", "var", "void", "while", "with", "yield"]

def isIdentifier (s : String) : Bool :=
  match s.toList with
  | [] => false
  | c :: rest => startsName c && rest.all isNameChar && !reservedWords.contains s

/-- A template literal is a token as a `whole`, or is cut into several at its substitutions. -/
inductive Token where
  | name (s : String)
  | string (value : String)
  | whole (text : String)
  | head (text : String)
  | middle (text : String)
  | tail (text : String)
  | dot
  | openBracket
  | closeBracket
  | call
  | question
  | colon
  | op (o : Op)
  deriving DecidableEq, Repr

/-- A part of a template literal: its text, whether a substitution or the end of the literal follows, and
what stands behind that. -/
structure Chunk where
  text : List Char
  opens : Bool
  rest : List Char
  deriving DecidableEq, Repr

def Chunk.prepend (c : Char) (chunk : Chunk) : Chunk := { chunk with text := c :: chunk.text }

/-- The part of a template literal at the front. Line ends are line feeds. -/
def chunk? : List Char → Option Chunk
  | [] => none
  | '\x60' :: s => some ⟨[], false, s⟩
  | '$' :: '{' :: s => some ⟨[], true, s⟩
  | '\\' :: c :: s => if c = '\\' ∨ c = '\x60' ∨ c = '$' then (chunk? s).map (·.prepend c) else none
  | '\r' :: '\n' :: s => (chunk? s).map (·.prepend '\n')
  | '\r' :: s => (chunk? s).map (·.prepend '\n')
  | c :: s => (chunk? s).map (·.prepend c)

/-- A token that is no name. An operator stands in front of a blank, so that no longer one is taken for
it. -/
def symbol? : List Char → Option (Token × List Char)
  | '"' :: s => (Json.Token.stringBody? s).map fun (cs, rest) => (.string (String.ofList cs), rest)
  | '\x60' :: s => (chunk? s).map fun chunk =>
    (if chunk.opens then .head (String.ofList chunk.text) else .whole (String.ofList chunk.text), chunk.rest)
  | '}' :: s => (chunk? s).map fun chunk =>
    (if chunk.opens then .middle (String.ofList chunk.text) else .tail (String.ofList chunk.text), chunk.rest)
  | '.' :: s => some (.dot, s)
  | '[' :: s => some (.openBracket, s)
  | ']' :: s => some (.closeBracket, s)
  | '(' :: ')' :: s => some (.call, s)
  | '?' :: ' ' :: s => some (.question, s)
  | ':' :: ' ' :: s => some (.colon, s)
  | '|' :: '|' :: ' ' :: s => some (.op .either, s)
  | '!' :: '=' :: '=' :: ' ' :: s => some (.op .differs, s)
  | '+' :: ' ' :: s => some (.op .plus, s)
  | _ => none

def next? : List Char → Option (Token × List Char)
  | [] => none
  | c :: s =>
    if startsName c then some (.name (String.ofList (c :: s.takeWhile isNameChar)), s.dropWhile isNameChar)
    else symbol? (c :: s)

theorem chunk?_length {s : List Char} {chunk : Chunk} (read : chunk? s = some chunk) :
    chunk.rest.length < s.length := by
  fun_induction chunk? s generalizing chunk with
  | case1 => cases read
  | case2 => cases read; simp
  | case3 =>
    cases read
    simp only [List.length_cons]
    omega
  | case5 => cases read
  | case4 c s _ ih | case6 s ih | case7 s _ ih | case8 c s _ _ _ _ _ ih =>
    obtain ⟨later, front, rfl⟩ := Option.map_eq_some_iff.mp read
    have shorter := ih front
    simp only [Chunk.prepend, List.length_cons]
    omega

theorem symbol?_length {s rest : List Char} {t : Token} (read : symbol? s = some (t, rest)) :
    rest.length < s.length := by
  unfold symbol? at read
  split at read
  case h_1 s =>
    obtain ⟨⟨cs, after⟩, front, same⟩ := Option.map_eq_some_iff.mp read
    cases same
    have shorter := Json.Token.stringBody?_length front
    simp only [List.length_cons]
    omega
  case h_2 s | h_3 s =>
    obtain ⟨chunk, front, same⟩ := Option.map_eq_some_iff.mp read
    cases same
    have shorter := chunk?_length front
    simp only [List.length_cons]
    omega
  case h_13 => cases read
  all_goals
    cases read
    simp only [List.length_cons]
    omega

theorem next?_length {s rest : List Char} {t : Token} (read : next? s = some (t, rest)) :
    rest.length < s.length := by
  unfold next? at read
  split at read
  · cases read
  · split at read
    · cases read
      exact Nat.lt_succ_of_le (List.dropWhile_suffix _).length_le
    · exact symbol?_length read

/-! Grouping -/

/-- A construct that is open, with what has been read of it: `test` and `otherwise` are behind the two marks
of a conditional, `hole` is inside a substitution. -/
inductive Frame where
  | operator (left : Term) (op : Op)
  | test (test : Term)
  | otherwise (test ifTrue : Term)
  | bracket (object : Term)
  | hole (front : Term)
  deriving DecidableEq, Repr

/-- Groups what stands to the left of an operator: all operations that bind as tightly. -/
def reduce (strength : Nat) (e : Term) : List Frame → Term × List Frame
  | .operator left op :: stack =>
    if strength ≤ op.strength then reduce strength (.binary op left e) stack
    else (e, .operator left op :: stack)
  | stack => (e, stack)

/-- Groups all operations and conditionals up to what encloses them. -/
def close (e : Term) : List Frame → Term × List Frame
  | .operator left op :: stack => close (.binary op left e) stack
  | .otherwise test ifTrue :: stack => close (.choose test ifTrue e) stack
  | stack => (e, stack)

/-- An operand comes next, or has been read, or the name of a property comes next. -/
inductive Reading where
  | wanting (stack : List Frame)
  | having (e : Term) (stack : List Frame)
  | property (object : Term) (stack : List Frame)
  deriving DecidableEq, Repr

namespace Reading

def step : Reading → Token → Option Reading
  | wanting k, .name s => if reservedWords.contains s then none else some (having (.name s) k)
  | wanting k, .string s => some (having (.string s) k)
  | wanting k, .whole text => some (having (.chunk text) k)
  | wanting k, .head text => some (wanting (.hole (.chunk text) :: k))
  | having e k, .dot => some (property e k)
  | property e k, .name s => some (having (.member e s) k)
  | having e k, .call => some (having (.call e) k)
  | having e k, .openBracket => some (wanting (.bracket e :: k))
  | having e k, .closeBracket =>
    match close e k with
    | (e, .bracket object :: k) => some (having (.index object e) k)
    | _ => none
  | having e k, .op o => some (wanting (.operator (reduce o.strength e k).1 o :: (reduce o.strength e k).2))
  | having e k, .question => some (wanting (.test (reduce 1 e k).1 :: (reduce 1 e k).2))
  | having e k, .colon =>
    match close e k with
    | (e, .test c :: k) => some (wanting (.otherwise c e :: k))
    | _ => none
  | having e k, .middle text =>
    match close e k with
    | (e, .hole front :: k) => some (wanting (.hole (.extend front e text) :: k))
    | _ => none
  | having e k, .tail text =>
    match close e k with
    | (e, .hole front :: k) => some (having (.extend front e text) k)
    | _ => none
  | _, _ => none

def finish : Reading → Option Term
  | having e k =>
    match close e k with
    | (e, []) => some e
    | _ => none
  | _ => none

end Reading

def run (state : Reading) (s : List Char) : Option Term :=
  match _h : s.dropWhile isSpace with
  | [] => state.finish
  | c :: r =>
    match _next : next? (c :: r) with
    | none => none
    | some (t, rest) => (state.step t).bind fun state => run state rest
termination_by s.length
decreasing_by
  have shorter := next?_length _next
  have suffix : (s.dropWhile isSpace).length ≤ s.length := (List.dropWhile_suffix isSpace).length_le
  rw [_h] at suffix
  omega

def read? (text : String) : Option Term := run (.wanting []) text.toList

/-! Values -/

/-- Objects are known by the members of their literals; they inherit from the `prototype`. -/
inductive Value where
  | undefined
  | boolean (b : Bool)
  | string (s : String)
  | strings (members : Entries String)
  | objects (members : Entries (Entries String))
  | prototype
  deriving DecidableEq, Repr

/-- The members of the object that others inherit from; they are functions, but for the first. -/
def inherited : List String :=
  ["__proto__", "constructor", "hasOwnProperty", "isPrototypeOf", "propertyIsEnumerable", "toLocaleString",
    "toString", "valueOf", "__defineGetter__", "__defineSetter__", "__lookupGetter__", "__lookupSetter__"]

namespace Value

def isTruthy : Value → Bool
  | undefined => false
  | boolean b => b
  | string s => !s.isEmpty
  | _ => true

def text? : Value → Option String
  | undefined => some "undefined"
  | boolean b => some (if b then "true" else "false")
  | string s => some s
  | prototype => some "[object Object]"
  | _ => none

/-- A member of a literal that is a string. In a literal, `__proto__` is no member: it would set what is
inherited from, which a string cannot be. -/
def ofStrings (members : Entries String) (name : String) : Option Value :=
  if name = "__proto__" then some prototype
  else match members.get? name with
    | some s => some (string s)
    | none => if inherited.contains name then none else some undefined

/-- A member of a literal that is an object; here `__proto__` sets what is inherited from. -/
def ofObjects (members : Entries (Entries String)) (name : String) : Option Value :=
  match members.get? name, members.get? "__proto__" with
  | some object, _ => some (strings object)
  | none, some base => ofStrings base name
  | none, none => ofStrings [] name

def member? : Value → String → Option Value
  | strings members, name => ofStrings members name
  | objects members, name => ofObjects members name
  | _, _ => none

/-- Whether two values differ, of which at most one is an object. -/
def differs? : Value → Value → Option Bool
  | undefined, undefined => some false
  | boolean a, boolean b => some (a != b)
  | string a, string b => some (a != b)
  | strings _, strings _ | strings _, objects _ | strings _, prototype | objects _, strings _
  | objects _, objects _ | objects _, prototype | prototype, strings _ | prototype, objects _
  | prototype, prototype => none
  | _, _ => some true

/-- The sum of two values, if one of them is a string. -/
def plus? : Value → Value → Option Value
  | string a, v => v.text?.map fun b => string (a ++ b)
  | v, string b => v.text?.map fun a => string (a ++ b)
  | _, _ => none

end Value

def trimStart (s : String) : String := String.ofList (s.toList.dropWhile isSpace)

abbrev Scope := List (String × Value)

/-- What a term comes to while its variables have these values; an inner variable hides an outer one. -/
def Term.eval (scope : Scope) : Term → Option Value
  | .name s => scope.lookup s
  | .string value => some (.string value)
  | .chunk text => some (.string text)
  | .extend front inner text => do
    let .string before ← front.eval scope | none
    let between ← (← inner.eval scope).text?
    return .string (before ++ between ++ text)
  | .member object property => do (← object.eval scope).member? property
  | .index object property => do
    let object ← object.eval scope
    object.member? (← (← property.eval scope).text?)
  | .call (.member object "trimStart") => do
    let .string s ← object.eval scope | none
    return .string (trimStart s)
  | .call _ => none
  | .binary .plus a b => do (← a.eval scope).plus? (← b.eval scope)
  | .binary .differs a b => do return .boolean (← (← a.eval scope).differs? (← b.eval scope))
  | .binary .either a b => do
    let first ← a.eval scope
    if first.isTruthy then return first else b.eval scope
  | .choose test ifTrue ifFalse => do
    if (← test.eval scope).isTruthy then ifTrue.eval scope else ifFalse.eval scope

def evaluate? (scope : Scope) (text : String) : Option Value := (read? text).bind (·.eval scope)

end Stencil.Script
