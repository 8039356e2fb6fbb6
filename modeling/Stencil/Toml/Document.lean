import Stencil.Toml.Scalar
import Stencil.Toml.Table

/-! Reading a TOML document: a header opens a table, an assignment adds to the table that was opened
last. Arrays and inline tables go on over several lines and may have a comma after the last item. -/
namespace Stencil.Toml

/-- How many arrays and inline tables may be open at once, and how many parts a key may have. -/
def depthLimit : Nat := 80

def keyPart? (t : Token) : Option String :=
  match t.kind with
  | .bare text => some text
  | .string text false => some text
  | _ => none

/-- The rest of a text that has been read to some part. -/
abbrev Rest (ts : List Token) := { rest : List Token // rest.length < ts.length }

namespace Rest

/-- What is left of a rest is left of the whole. -/
def weaken {ts us : List Token} (h : us.length ≤ ts.length) (r : Rest us) : Rest ts :=
  ⟨r.1, Nat.lt_of_lt_of_le r.2 h⟩

end Rest

def keyParts? : (ts : List Token) → Option (List String × Rest ts)
  | [] => none
  | t :: ⟨.dot, _⟩ :: rest =>
    match keyPart? t, keyParts? rest with
    | some part, some (parts, r) => some (part :: parts, r.weaken (by simp; omega))
    | _, _ => none
  | t :: rest => (keyPart? t).map fun part => ([part], ⟨rest, by simp⟩)

/-- A key: its parts, of which there are not too many. -/
def key? (ts : List Token) : Option (List String × Rest ts) :=
  (keyParts? ts).filter fun (parts, _) => parts.length ≤ depthLimit

def splitLast (path : List String) : List String × String := (path.dropLast, path.getLast?.getD "")

def isNewline (t : Token) : Bool := t.kind = .newline

def skipLines (ts : List Token) : List Token := ts.dropWhile isNewline

theorem skipLines_length (ts : List Token) : (skipLines ts).length ≤ ts.length :=
  (List.dropWhile_suffix isNewline).length_le

def scalarPart? (t : Token) : Option (List Char) :=
  match t.kind with
  | .bare text => some text.toList
  | .dot => some ['.']
  | .sign c => some [c]
  | _ => none

def continuesRun (t : Token) : Bool := t.gap = .none && (scalarPart? t).isSome

/-- The text of a token and of those that stand right behind it, and what follows them. -/
def scalarRun (t : Token) (rest : List Token) : List Char × List Token :=
  (((t :: rest.takeWhile continuesRun).filterMap scalarPart?).flatten, rest.dropWhile continuesRun)

theorem scalarRun_length (t : Token) (rest : List Token) :
    (scalarRun t rest).2.length ≤ rest.length :=
  (List.dropWhile_suffix continuesRun).length_le

/-- Goes on with a time, which one blank may divide from a date. -/
def withTime (text : List Char) : List Token → List Char × List Token
  | [] => (text, [])
  | t :: rest =>
    if Scalar.isDate text ∧ t.gap = .blank ∧ (scalarPart? t).isSome then
      let (time, rest) := scalarRun t rest
      (text ++ ' ' :: time, rest)
    else (text, t :: rest)

theorem withTime_length (text : List Char) (ts : List Token) :
    (withTime text ts).2.length ≤ ts.length := by
  unfold withTime
  split
  · simp
  · rename_i t rest
    have := scalarRun_length t rest
    split
    · simp only [List.length_cons]; omega
    · simp

def scalarText (t : Token) (rest : List Token) : List Char × List Token :=
  withTime (scalarRun t rest).1 (scalarRun t rest).2

theorem scalarText_length (t : Token) (rest : List Token) :
    (scalarText t rest).2.length ≤ rest.length :=
  Nat.le_trans (withTime_length _ _) (scalarRun_length t rest)

/-- A number, a date, a time or a boolean. -/
def scalar? (ts : List Token) : Option (Rest ts) :=
  match ts with
  | [] => none
  | t :: rest =>
    if (scalarPart? t).isSome ∧ Scalar.isScalar (scalarText t rest).1 then
      some ⟨(scalarText t rest).2, Nat.lt_succ_of_le (scalarText_length t rest)⟩
    else none

mutual

/-- A value, given how many more arrays and inline tables may be opened. -/
def value? (room : Nat) (ts : List Token) : Option (Value × Rest ts) :=
  match ts with
  | [] => none
  | t :: rest =>
    match t.kind, room with
    | .string s _, _ => some (.string s, ⟨rest, by simp⟩)
    | .openBracket, room + 1 =>
      (items? room rest).map fun (items, r) => (.array items, r.weaken (by simp))
    | .openBrace, room + 1 =>
      (fields? room [] rest).map fun (t, r) => (.table .inline t, r.weaken (by simp))
    | _, _ => (scalar? (t :: rest)).map fun r => (.scalar, r)
termination_by (ts.length, 0)
decreasing_by
  · simp [Prod.lex_def]
  · simp [Prod.lex_def]

/-- The items of an array up to its bracket; a comma may follow the last. -/
def items? (room : Nat) (ts : List Token) : Option (List Value × Rest ts) :=
  match h : skipLines ts with
  | ⟨.closeBracket, _⟩ :: r =>
    some ([], ⟨r, by have := skipLines_length ts; simp [h] at this; omega⟩)
  | us =>
    match value? room us with
    | none => none
    | some (v, ⟨r, hr⟩) =>
      match h' : skipLines r with
      | ⟨.comma, _⟩ :: r' =>
        (items? room r').map fun (vs, rest) => (v :: vs, rest.weaken (by
          have h₁ := skipLines_length ts
          have h₂ := skipLines_length r
          simp [h'] at h₂; rw [h] at h₁; omega))
      | ⟨.closeBracket, _⟩ :: r' =>
        some ([v], ⟨r', by
          have h₁ := skipLines_length ts
          have h₂ := skipLines_length r
          simp [h'] at h₂; rw [h] at h₁; omega⟩)
      | _ => none
termination_by (ts.length, 1)
decreasing_by
  · have h₁ := skipLines_length ts
    rw [h] at h₁
    simp [Prod.lex_def]; omega
  · have h₁ := skipLines_length ts
    have h₂ := skipLines_length r
    simp [h'] at h₂; rw [h] at h₁
    simp [Prod.lex_def]; omega

/-- The assignments of an inline table up to its brace; a comma may follow the last. -/
def fields? (room : Nat) (t : Table) (ts : List Token) : Option (Table × Rest ts) :=
  match h : skipLines ts with
  | ⟨.closeBrace, _⟩ :: r =>
    some (t, ⟨r, by have := skipLines_length ts; simp [h] at this; omega⟩)
  | us =>
    match key? us with
    | none => none
    | some (path, ⟨r₁, hk⟩) =>
      match h₁ : skipLines r₁ with
      | ⟨.equals, _⟩ :: r₂ =>
        match value? room (skipLines r₂) with
        | none => none
        | some (v, ⟨r₃, hv⟩) =>
          match Table.insert? (splitLast path).2 v (splitLast path).1 t, h₃ : skipLines r₃ with
          | some t, ⟨.comma, _⟩ :: r₄ =>
            (fields? room t r₄).map fun (t, rest) => (t, rest.weaken (by
              have l := skipLines_length ts
              have l₁ := skipLines_length r₁
              have l₂ := skipLines_length r₂
              have l₃ := skipLines_length r₃
              rw [h] at l; simp [h₁] at l₁; simp [h₃] at l₃; omega))
          | some t, ⟨.closeBrace, _⟩ :: r₄ =>
            some (t, ⟨r₄, by
              have l := skipLines_length ts
              have l₁ := skipLines_length r₁
              have l₂ := skipLines_length r₂
              have l₃ := skipLines_length r₃
              rw [h] at l; simp [h₁] at l₁; simp [h₃] at l₃; omega⟩)
          | _, _ => none
      | _ => none
termination_by (ts.length, 1)
decreasing_by
  · have l := skipLines_length ts
    have l₁ := skipLines_length r₁
    have l₂ := skipLines_length r₂
    rw [h] at l; simp [h₁] at l₁
    simp [Prod.lex_def]; omega
  · have l := skipLines_length ts
    have l₁ := skipLines_length r₁
    have l₂ := skipLines_length r₂
    have l₃ := skipLines_length r₃
    rw [h] at l; simp [h₁] at l₁; simp [h₃] at l₃
    simp [Prod.lex_def]; omega

end

/-- The tokens of the next line: after a statement nothing else may stand on its line. -/
def endLine? : List Token → Option (List Token)
  | [] => some []
  | t :: rest => if isNewline t then some rest else none

theorem endLine?_length {ts rest : List Token} (h : endLine? ts = some rest) :
    rest.length ≤ ts.length := by
  unfold endLine? at h
  split at h
  · simp at h; simp [h]
  · split at h
    · simp at h; simp [h]
    · simp at h

inductive Statement where
  | assign (path : List String) (value : Value)
  | header (path : List String)
  | repeatedHeader (path : List String)

/-- The statement that starts a line, and what follows it. The brackets of a header that can be repeated
stand side by side. -/
def statement? (ts : List Token) : Option (Statement × Rest ts) :=
  match ts with
  | ⟨.openBracket, _⟩ :: ⟨.openBracket, .none⟩ :: rest =>
    match key? rest with
    | some (path, ⟨⟨.closeBracket, _⟩ :: ⟨.closeBracket, .none⟩ :: r, h⟩) =>
      some (.repeatedHeader path, ⟨r, by simp at h; simp; omega⟩)
    | _ => none
  | ⟨.openBracket, _⟩ :: rest =>
    match key? rest with
    | some (path, ⟨⟨.closeBracket, _⟩ :: r, h⟩) => some (.header path, ⟨r, by simp at h; simp; omega⟩)
    | _ => none
  | ts =>
    match key? ts with
    | some (path, ⟨⟨.equals, _⟩ :: r, h⟩) =>
      (value? depthLimit r).map fun (v, rest) => (.assign path v, rest.weaken (by simp at h; omega))
    | _ => none

/-- Runs a statement, with the path of the table that was opened last. -/
def Statement.run (current : List String) (root : Table) : Statement → Option (List String × Table)
  | .assign path v =>
    let (front, k) := splitLast path
    (Table.under (Table.insert? k v front) current root).map (current, ·)
  | .header path =>
    let (front, k) := splitLast path
    (Table.under (Table.openTable k) front root).map (path, ·)
  | .repeatedHeader path =>
    let (front, k) := splitLast path
    (Table.under (Table.openRepeated k) front root).map (path, ·)

def readLines (current : List String) (root : Table) (ts : List Token) : Option Table :=
  match ts with
  | [] => some root
  | t :: rest =>
    if isNewline t then readLines current root rest
    else
      match statement? (t :: rest) with
      | none => none
      | some (s, ⟨r, _h⟩) =>
        match s.run current root, _hn : endLine? r with
        | some (current, root), some next => readLines current root next
        | _, _ => none
termination_by ts.length
decreasing_by
  · simp
  · have := endLine?_length _hn
    simp at _h; simp; omega

def parse? (text : String) : Option Table := do
  readLines [] [] (← Token.scan text)

end Stencil.Toml
