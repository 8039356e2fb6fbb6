import Stencil.Json.Magnitude
import Stencil.Json.Value

/-! Reading JSON: characters to tokens, tokens to a value over a stack of open arrays and objects. Lone
surrogates, controls inside strings, numbers beyond the range of a double and containers nested more
than 127 deep are refused. -/
namespace Stencil.Json

inductive Token where
  | openArray
  | closeArray
  | openObject
  | closeObject
  | colon
  | comma
  | null
  | bool (value : Bool)
  | number (literal : String)
  | string (value : String)
  deriving DecidableEq, Repr

namespace Token

def isSpace (c : Char) : Bool := c == ' ' || c == '\n' || c == '\t' || c == '\r'

def hexValue? (c : Char) : Option Nat :=
  if '0' ≤ c ∧ c ≤ '9' then some (c.toNat - 48)
  else if 'a' ≤ c ∧ c ≤ 'f' then some (c.toNat - 87)
  else if 'A' ≤ c ∧ c ≤ 'F' then some (c.toNat - 55)
  else none

def hex4? : List Char → Option (Nat × List Char)
  | a :: b :: c :: d :: s => do
    let a ← hexValue? a
    let b ← hexValue? b
    let c ← hexValue? c
    let d ← hexValue? d
    some (((a * 16 + b) * 16 + c) * 16 + d, s)
  | _ => none

/-- The character of a `\u` escape, after the `u`: one unit, or a high surrogate and the escape of a low
one. -/
def unicode? (s : List Char) : Option (Char × List Char) := do
  let (n, s) ← hex4? s
  if n < 0xD800 ∨ 0xE000 ≤ n then some (Char.ofNat n, s)
  else if n < 0xDC00 then
    match s with
    | '\\' :: 'u' :: s => do
      let (m, s) ← hex4? s
      if 0xDC00 ≤ m ∧ m < 0xE000 then
        some (Char.ofNat (0x10000 + (n - 0xD800) * 0x400 + (m - 0xDC00)), s)
      else none
    | _ => none
  else none

def escaped? : List Char → Option (Char × List Char)
  | '"' :: s => some ('"', s)
  | '\\' :: s => some ('\\', s)
  | '/' :: s => some ('/', s)
  | 'b' :: s => some ('\x08', s)
  | 'f' :: s => some ('\x0c', s)
  | 'n' :: s => some ('\n', s)
  | 'r' :: s => some ('\r', s)
  | 't' :: s => some ('\t', s)
  | 'u' :: s => unicode? s
  | _ => none

theorem hex4?_length {s rest : List Char} {n : Nat} (h : hex4? s = some (n, rest)) :
    rest.length < s.length := by
  unfold hex4? at h
  split at h
  · simp [Option.bind_eq_some_iff] at h
    obtain ⟨_, _, _, _, _, _, _, _, _, rfl⟩ := h
    simp; omega
  · simp at h

theorem unicode?_length {s rest : List Char} {c : Char} (h : unicode? s = some (c, rest)) :
    rest.length < s.length := by
  simp only [unicode?, Option.bind_eq_bind, Option.bind_eq_some_iff, Prod.exists] at h
  obtain ⟨n, s1, h1, h⟩ := h
  have l1 := hex4?_length h1
  split at h
  · simp at h; rw [← h.2]; exact l1
  · split at h
    · split at h
      · simp only [Option.bind_eq_some_iff, Prod.exists] at h
        obtain ⟨m, s2, h2, h⟩ := h
        have l2 := hex4?_length h2
        split at h
        · simp at h; rw [← h.2]; simp at l1; omega
        · simp at h
      · simp at h
    · simp at h

theorem escaped?_length {s rest : List Char} {c : Char} (h : escaped? s = some (c, rest)) :
    rest.length < s.length := by
  unfold escaped? at h
  split at h
  all_goals first
    | (simp at h; rw [← h.2]; simp)
    | (have hu := unicode?_length h; simp; omega)
    | simp at h

/-- The characters of a string up to its closing quote, and what follows it. -/
def stringBody? (s : List Char) : Option (List Char × List Char) :=
  match s with
  | [] => none
  | '"' :: s => some ([], s)
  | '\\' :: s =>
    match _h : escaped? s with
    | none => none
    | some (c, rest) => (stringBody? rest).map fun (cs, rest) => (c :: cs, rest)
  | c :: s =>
    if c.toNat < 32 then none else (stringBody? s).map fun (cs, rest) => (c :: cs, rest)
termination_by s.length
decreasing_by
  · have := escaped?_length _h
    simp; omega
  · simp

theorem stringBody?_length {s cs rest : List Char} (h : stringBody? s = some (cs, rest)) :
    rest.length < s.length := by
  fun_induction stringBody? s generalizing cs rest with
  | case1 => simp at h
  | case2 s => simp at h; rw [h.2]; simp
  | case3 => simp at h
  | case4 s c r he ih =>
    have l := escaped?_length he
    cases hr : stringBody? r with
    | none => simp [hr] at h
    | some p =>
      obtain ⟨a, b⟩ := p
      simp [hr] at h
      have := ih hr
      rw [← h.2]; simp; omega
  | case5 => simp at h
  | case6 c s _ _ _ ih =>
    cases hr : stringBody? s with
    | none => simp [hr] at h
    | some p =>
      obtain ⟨a, b⟩ := p
      simp [hr] at h
      have := ih hr
      rw [← h.2]; simp; omega

def isDigit (c : Char) : Bool := '0' ≤ c && c ≤ '9'

/-- Digits, of which there is at least one. -/
def digits? (s : List Char) : Option (List Char × List Char) :=
  match s.takeWhile isDigit with
  | [] => none
  | ds => some (ds, s.dropWhile isDigit)

/-- The fraction of a number; an empty one has no point. -/
def fraction? : List Char → Option (List Char × List Char)
  | '.' :: s => digits? s
  | s => some ([], s)

/-- The exponent of a number with its sign; an absent one is zero. -/
def exponent? : List Char → Option (Bool × List Char × List Char)
  | c :: s =>
    if c == 'e' || c == 'E' then
      match s with
      | '+' :: s => (digits? s).map fun (ds, r) => (false, ds, r)
      | '-' :: s => (digits? s).map fun (ds, r) => (true, ds, r)
      | s => (digits? s).map fun (ds, r) => (false, ds, r)
    else some (false, [], c :: s)
  | [] => some (false, [], [])

def unsigned? (s : List Char) : Option (List Char) := do
  let (whole, r) ← digits? s
  if whole.length > 1 ∧ whole.head? = some '0' then none
  else
    let (fraction, r) ← fraction? r
    let (negative, exponent, r) ← exponent? r
    if (Magnitude.ofDigits whole fraction negative exponent).isFinite then some r else none

def number? : List Char → Option (List Char)
  | '-' :: s => unsigned? s
  | s => unsigned? s

def next? : List Char → Option (Token × List Char)
  | '[' :: s => some (.openArray, s)
  | ']' :: s => some (.closeArray, s)
  | '\x7b' :: s => some (.openObject, s)
  | '\x7d' :: s => some (.closeObject, s)
  | ':' :: s => some (.colon, s)
  | ',' :: s => some (.comma, s)
  | '"' :: s => (stringBody? s).map fun (cs, rest) => (.string (String.ofList cs), rest)
  | 'n' :: 'u' :: 'l' :: 'l' :: s => some (.null, s)
  | 't' :: 'r' :: 'u' :: 'e' :: s => some (.bool true, s)
  | 'f' :: 'a' :: 'l' :: 's' :: 'e' :: s => some (.bool false, s)
  | s =>
    match number? s with
    | some rest =>
      if rest.length < s.length then
        some (.number (String.ofList (s.take (s.length - rest.length))), rest)
      else none
    | none => none

theorem next?_length {s rest : List Char} {t : Token} (h : next? s = some (t, rest)) :
    rest.length < s.length := by
  unfold next? at h
  split at h
  case h_7 s' =>
    cases hb : stringBody? s' with
    | none => simp [hb] at h
    | some p =>
      obtain ⟨a, b⟩ := p
      simp [hb] at h
      have := stringBody?_length hb
      rw [← h.2]; simp; omega
  case h_11 =>
    split at h
    · split at h
      · simp at h; rw [← h.2]; assumption
      · simp at h
    · simp at h
  all_goals (simp at h; rw [← h.2]; simp; try omega)

def scan? (s : List Char) : Option (List Token) :=
  match s with
  | [] => some []
  | c :: r =>
    if isSpace c then scan? r
    else
      match _h : next? (c :: r) with
      | none => none
      | some (t, rest) => (scan? rest).map (t :: ·)
termination_by s.length
decreasing_by
  · simp
  · exact next?_length _h

end Token

/-- A container that is still open, with what it holds so far, the latest first; an object also has the
name that the value to come belongs to. -/
inductive Frame where
  | array (items : List Json)
  | object (members : List (String × Json)) (name : String)

/-- The greatest number of containers around a value. -/
def maxDepth : Nat := 127

mutual

def expect (stack : List Frame) : List Token → Option Json
  | .null :: ts => resume .null stack ts
  | .bool b :: ts => resume (.bool b) stack ts
  | .number n :: ts => resume (.number n) stack ts
  | .string s :: ts => resume (.string s) stack ts
  | .openArray :: .closeArray :: ts =>
    if stack.length < maxDepth then resume (.array []) stack ts else none
  | .openArray :: ts => if stack.length < maxDepth then expect (.array [] :: stack) ts else none
  | .openObject :: .closeObject :: ts =>
    if stack.length < maxDepth then resume (.object []) stack ts else none
  | .openObject :: .string name :: .colon :: ts =>
    if stack.length < maxDepth then expect (.object [] name :: stack) ts else none
  | _ => none

/-- Reads on after a value: it goes into the innermost open container, or is the result. -/
def resume (value : Json) (stack : List Frame) : List Token → Option Json
  | [] => if stack.isEmpty then some value else none
  | t :: ts =>
    match stack with
    | [] => none
    | .array items :: outer =>
      match t with
      | .comma => expect (.array (value :: items) :: outer) ts
      | .closeArray => resume (.array (value :: items).reverse) outer ts
      | _ => none
    | .object members name :: outer =>
      match t with
      | .comma =>
        match ts with
        | .string name' :: .colon :: ts => expect (.object ((name, value) :: members) name' :: outer) ts
        | _ => none
      | .closeObject => resume (.object ((name, value) :: members).reverse) outer ts
      | _ => none

end

/-- The value a text is, with nothing but spaces around it. -/
def parse? (text : String) : Option Json := (Token.scan? text.toList).bind (expect [])

end Stencil.Json
