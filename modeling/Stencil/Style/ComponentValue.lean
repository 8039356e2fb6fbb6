import Stencil.Style.Token

/-! Component values: tokens with what stands between matching brackets gathered into blocks. A closing
bracket that does not match the innermost open one is a plain token, and the end of the text closes
whatever is open. -/
namespace Stencil.Style

inductive ComponentValue where
  | token (t : Token)
  /-- A bracket or function, what stands inside, and the closing bracket if there is one. -/
  | block (bracket : Bracket) (opening : Token) (contents : List ComponentValue) (closing : Option Token)
  deriving Repr

namespace Token

/-- The bracket a token opens; a function opens a parenthesis. -/
def opens? (t : Token) : Option Bracket :=
  match t.kind with
  | .opening b => some b
  | .function _ => some .paren
  | _ => none

def closes? (t : Token) : Option Bracket :=
  match t.kind with
  | .closing b => some b
  | _ => none

end Token

namespace ComponentValue

mutual

/-- The characters a component was read from, in front of `tail`. -/
def sourceOnto : ComponentValue → List Char → List Char
  | .token t, tail => t.source ++ tail
  | .block _ opening contents closing, tail =>
    opening.source ++ sourceAllOnto contents ((closing.map (·.source)).getD [] ++ tail)

def sourceAllOnto : List ComponentValue → List Char → List Char
  | [], tail => tail
  | c :: rest, tail => sourceOnto c (sourceAllOnto rest tail)

end

/-- The characters a component was read from. -/
def source (c : ComponentValue) : List Char := c.sourceOnto []

def sourceAll (cs : List ComponentValue) : List Char := sourceAllOnto cs []

mutual

theorem sourceOnto_eq (c : ComponentValue) (tail : List Char) : c.sourceOnto tail = c.source ++ tail := by
  cases c with
  | token t => simp [source, sourceOnto]
  | block b opening contents closing =>
    simp only [source, sourceOnto]
    rw [sourceAllOnto_eq contents, sourceAllOnto_eq contents (_ ++ [])]
    simp

theorem sourceAllOnto_eq (cs : List ComponentValue) (tail : List Char) :
    sourceAllOnto cs tail = sourceAll cs ++ tail := by
  cases cs with
  | nil => rfl
  | cons c rest =>
    simp only [sourceAll, sourceAllOnto]
    rw [sourceOnto_eq c, sourceOnto_eq c (sourceAllOnto rest []), sourceAllOnto_eq rest]
    simp [sourceAll]

end

@[simp] theorem source_token (t : Token) : (token t).source = t.source := by simp [source, sourceOnto]

@[simp] theorem source_block (b : Bracket) (opening : Token) (contents : List ComponentValue)
    (closing : Option Token) :
    (block b opening contents closing).source =
      opening.source ++ sourceAll contents ++ (closing.map (·.source)).getD [] := by
  simp [source, sourceOnto, sourceAllOnto_eq]

@[simp] theorem sourceAll_nil : sourceAll [] = [] := rfl

@[simp] theorem sourceAll_cons (c : ComponentValue) (rest : List ComponentValue) :
    sourceAll (c :: rest) = c.source ++ sourceAll rest := by
  simp [sourceAll, sourceAllOnto, sourceOnto_eq]

mutual

/-- The number of tokens in a component, its brackets counted as one more than they are. -/
def weight : ComponentValue → Nat
  | .token _ => 1
  | .block _ _ contents _ => 2 + weightAll contents

def weightAll : List ComponentValue → Nat
  | [] => 0
  | c :: rest => c.weight + weightAll rest

end

def kind? : ComponentValue → Option Token.Kind
  | .token t => some t.kind
  | .block .. => none

/-- A plain token of this kind. -/
def isToken (kind : Token.Kind) (c : ComponentValue) : Bool := c.kind? == some kind

def isSpace (c : ComponentValue) : Bool := c.isToken .space || c.isToken .comment

def isCurly : ComponentValue → Bool
  | .block .curly .. => true
  | _ => false

end ComponentValue

/-- Blocks still open, innermost first, with what they hold so far, and what stands outside of all of
them; the components are latest first. -/
structure Nesting where
  opened : List (Bracket × Token × List ComponentValue) := []
  outside : List ComponentValue := []

namespace Nesting

def add (n : Nesting) (c : ComponentValue) : Nesting :=
  match n.opened with
  | [] => { n with outside := c :: n.outside }
  | (b, t, contents) :: outer => { n with opened := (b, t, c :: contents) :: outer }

/-- Closes the innermost open block. -/
def closeInner (n : Nesting) (closing : Option Token) : Nesting :=
  match n.opened with
  | [] => n
  | (b, t, contents) :: outer => { n with opened := outer }.add (.block b t contents.reverse closing)

def step (n : Nesting) (t : Token) : Nesting :=
  match t.opens? with
  | some b => { n with opened := (b, t, []) :: n.opened }
  | none =>
    match t.closes?, n.opened with
    | some b, (open_, _, _) :: _ => if b = open_ then n.closeInner (some t) else n.add (.token t)
    | _, _ => n.add (.token t)

def closeInners : Nat → Nesting → Nesting
  | 0, n => n
  | k + 1, n => closeInners k (n.closeInner none)

def finish (n : Nesting) : List ComponentValue := (closeInners n.opened.length n).outside.reverse

end Nesting

namespace ComponentValue

def ofTokens (tokens : List Token) : List ComponentValue := (tokens.foldl Nesting.step {}).finish

/-- The components of a text. -/
def scan (s : List Char) : List ComponentValue := ofTokens (Token.scan s)

end ComponentValue

end Stencil.Style
