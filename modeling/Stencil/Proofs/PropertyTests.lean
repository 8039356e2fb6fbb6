import Stencil.Proofs.Script

/-! The part of JavaScript that tests of properties are written in: comparisons with strings, lists that a
value is looked up in, and their conjunctions and disjunctions. The operands that wait for what stands on the
right of their operators are kept apart, one for each operator, so that a tighter one is complete before a
looser one takes it. Anything outside of this part is not read. -/
namespace Stencil.Script.Test

/-- The binary operators, from the loosest to the tightest. -/
inductive Op where
  | either
  | both
  | equals
  deriving DecidableEq, Repr

/-- An array literal is `empty`, or extended by one more element. -/
inductive Expr where
  | name (s : String)
  | string (value : String)
  | member (object : Expr) (property : String)
  | call (function argument : Expr)
  | empty
  | extend (front element : Expr)
  | binary (op : Op) (a b : Expr)
  deriving DecidableEq, Repr

/-! Tokens -/

inductive Token where
  | name (s : String)
  | string (value : String)
  | dot
  | comma
  | openParen
  | closeParen
  | openSquare
  | closeSquare
  | op (o : Op)
  deriving DecidableEq, Repr

/-- A token that is no name. An operator stands in front of a blank, so that no longer one is taken for
it. -/
def symbol? : List Char → Option (Token × List Char)
  | '"' :: s => (Json.Token.stringBody? s).map fun (cs, rest) => (.string (String.ofList cs), rest)
  | '.' :: s => some (.dot, s)
  | ',' :: s => some (.comma, s)
  | '(' :: s => some (.openParen, s)
  | ')' :: s => some (.closeParen, s)
  | '[' :: s => some (.openSquare, s)
  | ']' :: s => some (.closeSquare, s)
  | '|' :: '|' :: ' ' :: s => some (.op .either, s)
  | '&' :: '&' :: ' ' :: s => some (.op .both, s)
  | '=' :: '=' :: '=' :: ' ' :: s => some (.op .equals, s)
  | _ => none

def next? : List Char → Option (Token × List Char)
  | [] => none
  | c :: s =>
    if startsName c then some (.name (String.ofList (c :: s.takeWhile isNameChar)), s.dropWhile isNameChar)
    else symbol? (c :: s)

theorem symbol?_length {s rest : List Char} {t : Token} (read : symbol? s = some (t, rest)) :
    rest.length < s.length := by
  unfold symbol? at read
  split at read
  case h_1 s =>
    obtain ⟨⟨cs, after⟩, front, same⟩ := Option.map_eq_some_iff.mp read
    cases same
    have shorter := Json.Token.stringBody?_length front
    simp only [List.length_cons]
    omega
  case h_11 => cases read
  all_goals
    cases read
    simp only [List.length_cons]
    omega

theorem next?_length {s rest : List Char} {t : Token} (read : next? s = some (t, rest)) :
    rest.length < s.length := by
  unfold next? at read
  split at read
  · cases read
  · split at read
    · cases read
      exact Nat.lt_succ_of_le (List.dropWhile_suffix _).length_le
    · exact symbol?_length read

def scan? (s : List Char) : Option (List Token) :=
  match _h : s.dropWhile isSpace with
  | [] => some []
  | c :: r =>
    match _next : next? (c :: r) with
    | none => none
    | some (t, rest) => (scan? rest).map (t :: ·)
termination_by s.length
decreasing_by
  have shorter := next?_length _next
  have suffix : (s.dropWhile isSpace).length ≤ s.length := (List.dropWhile_suffix isSpace).length_le
  rw [_h] at suffix
  omega

/-! Grouping -/

/-- What stands on the left of an operator whose right operand is not complete. -/
structure Pending where
  either : Option Expr := none
  both : Option Expr := none
  equals : Option Expr := none
  deriving DecidableEq, Repr

namespace Pending

def apply (op : Op) (left : Option Expr) (e : Expr) : Expr :=
  match left with
  | none => e
  | some left => .binary op left e

def comparison (p : Pending) (e : Expr) : Expr := apply .equals p.equals e

def conjunction (p : Pending) (e : Expr) : Expr := apply .both p.both (p.comparison e)

def disjunction (p : Pending) (e : Expr) : Expr := apply .either p.either (p.conjunction e)

/-- Behind an operator: whatever binds as tightly is complete. -/
def push (p : Pending) (e : Expr) : Op → Pending
  | .equals => { p with equals := some (p.comparison e) }
  | .both => { either := p.either, both := some (p.conjunction e) }
  | .either => { either := some (p.disjunction e) }

end Pending

inductive Frame where
  | paren
  /-- An array literal, with the elements before the last comma. -/
  | list (front : Expr)
  | argument (function : Expr)
  deriving DecidableEq, Repr

abbrev Stack := List (Frame × Pending)

inductive Reading where
  | wanting (p : Pending) (stack : Stack)
  | having (e : Expr) (p : Pending) (stack : Stack)
  | property (object : Expr) (p : Pending) (stack : Stack)
  deriving DecidableEq, Repr

namespace Reading

def step : Reading → Token → Option Reading
  | wanting p k, .name s => if reservedWords.contains s then none else some (having (.name s) p k)
  | wanting p k, .string s => some (having (.string s) p k)
  | wanting p k, .openParen => some (wanting {} ((.paren, p) :: k))
  | wanting p k, .openSquare => some (wanting {} ((.list .empty, p) :: k))
  | having e p k, .dot => some (property e p k)
  | property e p k, .name s => some (having (.member e s) p k)
  | having e p k, .openParen => some (wanting {} ((.argument e, p) :: k))
  | having e p ((.list front, q) :: k), .comma =>
    some (wanting {} ((.list (.extend front (p.disjunction e)), q) :: k))
  | having e p ((.list front, q) :: k), .closeSquare => some (having (.extend front (p.disjunction e)) q k)
  | having e p ((.paren, q) :: k), .closeParen => some (having (p.disjunction e) q k)
  | having e p ((.argument f, q) :: k), .closeParen => some (having (.call f (p.disjunction e)) q k)
  | having e p k, .op o => some (wanting (p.push e o) k)
  | _, _ => none

def finish : Reading → Option Expr
  | having e p [] => some (p.disjunction e)
  | _ => none

end Reading

def read? (text : String) : Option Expr := do
  let tokens ← scan? text.toList
  let reading ← tokens.foldlM Reading.step (.wanting {} [])
  reading.finish

/-! Values -/

/-- Symbols and objects are known by which one they are; functions are objects. -/
inductive Value where
  | undefined
  | null
  | boolean (b : Bool)
  | number (x : Float)
  | bigint (n : Int)
  | string (s : String)
  | symbol (id : Nat)
  | object (id : Nat)
  deriving Repr

namespace Value

/-- Zeros and what is no number are not true. -/
def isTruthy : Value → Bool
  | undefined | null => false
  | boolean b => b
  | number x => !(x == 0) && !x.isNaN
  | bigint n => n != 0
  | string s => !s.isEmpty
  | symbol _ | object _ => true

/-- Values of different types are never equal, and what is no number does not equal itself. -/
def strictEquals : Value → Value → Bool
  | undefined, undefined | null, null => true
  | boolean a, boolean b => a == b
  | number a, number b => a == b
  | bigint a, bigint b => a == b
  | string a, string b => a == b
  | symbol a, symbol b | object a, object b => a == b
  | _, _ => false

/-- How lists look up a value: what is no number is found too. -/
def sameValueZero : Value → Value → Bool
  | number a, number b => a == b || (a.isNaN && b.isNaN)
  | a, b => a.strictEquals b

end Value

namespace Expr

mutual

/-- What an expression comes to while the properties have these values. -/
def eval (props : String → Value) : Expr → Option Value
  | .string value => some (.string value)
  | .member (.name "props") key => some (props key)
  | .call (.member list "includes") argument => do
    let elements ← list.elements props
    let v ← argument.eval props
    return .boolean (elements.any (·.sameValueZero v))
  | .binary .equals a b => do return .boolean ((← a.eval props).strictEquals (← b.eval props))
  | .binary .both a b => do
    let first ← a.eval props
    if first.isTruthy then b.eval props else return first
  | .binary .either a b => do
    let first ← a.eval props
    if first.isTruthy then return first else b.eval props
  | _ => none

def elements (props : String → Value) : Expr → Option (List Value)
  | .empty => some []
  | .extend front element => do return (← front.elements props) ++ [← element.eval props]
  | _ => none

end

end Expr

def evaluate? (props : String → Value) (text : String) : Option Value := (read? text).bind (·.eval props)

end Stencil.Script.Test
