import Stencil.Notice
import Stencil.Style.ComponentValue
import Stencil.Style.Rule
import Stencil.Text.Search

/-! Reading a stylesheet. At the top level a broken rule fails the sheet; inside a body a broken item is
skipped with a notice. In a body, an item that starts with an identifier is a declaration when a colon
and a value follow, up to the next semicolon; otherwise it is read as a nested rule. -/
namespace Stencil.Style

inductive SyntaxFault where
  /-- The input ends before the rule's block. -/
  | endOfInput
  /-- A block without anything before it. -/
  | noSelector
  deriving DecidableEq, Repr

structure SyntaxError where
  line : Nat
  fault : SyntaxFault
  snippet : String
  deriving DecidableEq, Repr

namespace SyntaxError

def faultText : SyntaxFault → String
  | .endOfInput => "Basic(EndOfInput)"
  | .noSelector => "Custom(())"

def message (e : SyntaxError) : String :=
  "CSS syntax error at line " ++ toString e.line ++ ": " ++ faultText e.fault ++ " in `" ++
    e.snippet ++ "`"

end SyntaxError

/-- The line ends in a text; a carriage return and a line feed are one. -/
def countLines : List Char → Nat
  | '\r' :: '\n' :: s => countLines s + 1
  | c :: s => countLines s + (if Token.isNewline c then 1 else 0)
  | [] => 0

namespace ComponentValue

def slice (cs : List ComponentValue) : String := String.ofList (Text.Chars.trim (sourceAll cs))

/-- The text of some components and of the opening bracket after them, trimmed. -/
def sliceToBlock (cs : List ComponentValue) : String :=
  String.ofList (Text.Chars.trim (sourceAll cs ++ ['\x7b']))

def linesIn (cs : List ComponentValue) : Nat := countLines (sourceAll cs)

def isSemicolon (c : ComponentValue) : Bool := c.isToken .semicolon

/-- What ends the front of an at-rule or of a nested rule. -/
def endsPrelude (c : ComponentValue) : Bool := c.isSemicolon || c.isCurly

/-- What stands between the top-level rules. -/
def isBetweenRules (c : ComponentValue) : Bool :=
  c.isSpace || c.isToken .commentOpen || c.isToken .commentClose

def isBetweenItems (c : ComponentValue) : Bool :=
  c.isSpace || c.isSemicolon || c.isToken (.closing .curly)

def contents : ComponentValue → List ComponentValue
  | .block _ _ contents _ => contents
  | .token _ => []

theorem weight_pos (c : ComponentValue) : 0 < c.weight := by
  cases c <;> simp only [weight] <;> omega

theorem weightAll_contents_lt (c : ComponentValue) : weightAll c.contents < c.weight := by
  cases c <;> simp [weight, contents, weightAll]

theorem weightAll_suffix {a b : List ComponentValue} (h : a <:+ b) : weightAll a ≤ weightAll b := by
  obtain ⟨p, rfl⟩ := h
  induction p with
  | nil => exact Nat.le_refl _
  | cons c p ih => simp only [List.cons_append, weightAll]; omega

theorem weightAll_dropWhile_le (p : ComponentValue → Bool) (cs : List ComponentValue) :
    weightAll (cs.dropWhile p) ≤ weightAll cs :=
  weightAll_suffix (List.dropWhile_suffix p)

end ComponentValue

open ComponentValue

/-- An at-rule after its keyword: the parameters up to a semicolon or a block, what the block holds and
the line it starts on, and the line and components where reading goes on. -/
structure AtFront where
  params : String
  inside : Nat
  contents : List ComponentValue
  line : Nat
  rest : List ComponentValue

def AtFront.take (line : Nat) (cs : List ComponentValue) : AtFront :=
  let prelude := cs.takeWhile (!endsPrelude ·)
  let reached := line + linesIn prelude
  match cs.dropWhile (!endsPrelude ·) with
  | [] => ⟨slice prelude, reached, [], reached, []⟩
  | c :: rest => ⟨slice prelude, reached, c.contents, reached + linesIn [c], rest⟩

theorem AtFront.take_weight (line : Nat) (cs : List ComponentValue) :
    weightAll (take line cs).contents + weightAll (take line cs).rest ≤ weightAll cs := by
  have h := weightAll_dropWhile_le (!endsPrelude ·) cs
  unfold take
  dsimp only
  split
  · simp [weightAll]
  · rename_i c rest hd
    rw [hd] at h
    have := weightAll_contents_lt c
    simp only [weightAll] at h ⊢
    omega

/-- One thing read in a body. What stands in a block is not read yet; it starts on the line `inside`. -/
inductive Item where
  | decl (prop value : String)
  | rule (selector : String) (inside : Nat) (contents : List ComponentValue)
  | atRule (name params : String) (inside : Nat) (contents : List ComponentValue)
  | skipped (line : Nat) (snippet : String)

namespace Item

/-- An item, and the line and components where reading goes on. -/
structure Taken where
  item : Item
  line : Nat
  rest : List ComponentValue

def contents : Item → List ComponentValue
  | rule _ _ contents => contents
  | atRule _ _ _ contents => contents
  | _ => []

/-- A declaration, after its property name: its value, or the number of line ends up to the point where
it turns out to be none. The value ends before a semicolon. -/
def declValue (cs : List ComponentValue) : Except Nat String :=
  let item := cs.takeWhile (!·.isSemicolon)
  match item.dropWhile isSpace with
  | [] => .error (linesIn item)
  | c :: value =>
    if c.isToken .colon then
      if (slice value).isEmpty then .error (linesIn item) else .ok (slice value)
    else .error 0

/-- A rule inside a body: a selector up to its block. A semicolon, the end or an empty selector makes it
an item to skip, blamed on the line where that shows unless `blame` gives another one. -/
def takeRule (line : Nat) (blame : Option Nat) (cs : List ComponentValue) : Taken :=
  let prelude := cs.takeWhile (!endsPrelude ·)
  let reached := line + linesIn prelude
  match cs.dropWhile (!endsPrelude ·) with
  | [] => ⟨.skipped (blame.getD reached) (slice cs), reached, []⟩
  | c :: rest =>
    if c.isCurly then
      let after := reached + linesIn [c]
      if (slice prelude).isEmpty then
        ⟨.skipped (blame.getD reached) (sliceToBlock prelude), after, rest⟩
      else ⟨.rule (slice prelude) reached c.contents, after, rest⟩
    else ⟨.skipped (blame.getD reached) (slice (prelude ++ [c])), reached, rest⟩

def take (line : Nat) (first : ComponentValue) (after : List ComponentValue) : Taken :=
  match first.kind? with
  | some (.atKeyword name) =>
    let front := AtFront.take (line + linesIn [first]) after
    ⟨.atRule name front.params front.inside front.contents, front.line, front.rest⟩
  | some (.ident prop) =>
    match declValue after with
    | .ok value =>
      ⟨.decl prop value, line + linesIn (first :: after.takeWhile (!·.isSemicolon)),
        after.dropWhile (!·.isSemicolon)⟩
    | .error lines => takeRule line (some (line + linesIn [first] + lines)) (first :: after)
  | _ => takeRule line none (first :: after)

theorem takeRule_weight (line : Nat) (blame : Option Nat) (c : ComponentValue) (cs : List ComponentValue) :
    weightAll (takeRule line blame (c :: cs)).item.contents +
      weightAll (takeRule line blame (c :: cs)).rest < weightAll (c :: cs) := by
  have h := weightAll_dropWhile_le (!endsPrelude ·) (c :: cs)
  unfold takeRule
  dsimp only
  split
  · have := weight_pos c
    simp only [Item.contents, weightAll]; omega
  · rename_i d rest hd
    rw [hd] at h
    have h1 := weightAll_contents_lt d
    have h2 := weight_pos d
    split
    · split <;> (simp only [Item.contents, weightAll] at h ⊢; omega)
    · simp only [Item.contents, weightAll] at h ⊢; omega

/-- Reading goes on with less: both in the block of the item and after it. -/
theorem take_weight (line : Nat) (first : ComponentValue) (after : List ComponentValue) :
    weightAll (take line first after).item.contents + weightAll (take line first after).rest <
      weightAll (first :: after) := by
  have hpos := weight_pos first
  unfold take
  split
  · have := AtFront.take_weight (line + linesIn [first]) after
    simp only [Item.contents, weightAll]; omega
  · split
    · have := weightAll_dropWhile_le (!·.isSemicolon) after
      simp only [Item.contents, weightAll]; omega
    · exact takeRule_weight ..
  · exact takeRule_weight ..

end Item

/-- The items of a body that starts on `line`, and the notices on what was skipped. -/
def readBody (line : Nat) (cs : List ComponentValue) : List Rule × List Notice :=
  match _h : cs.dropWhile isBetweenItems with
  | [] => ([], [])
  | first :: after =>
    let taken := Item.take (line + linesIn (cs.takeWhile isBetweenItems)) first after
    let later := readBody taken.line taken.rest
    match _h' : taken.item with
    | .decl prop value => (.decl prop value :: later.1, later.2)
    | .rule selector inside contents =>
      let inner := readBody inside contents
      (.rule selector inner.1 :: later.1, inner.2 ++ later.2)
    | .atRule name params inside contents =>
      let inner := readBody inside contents
      (.atRule name params inner.1 :: later.1, inner.2 ++ later.2)
    | .skipped line snippet => (later.1, .cssSkipped line snippet :: later.2)
termination_by weightAll cs
decreasing_by
  all_goals
    have h0 := weightAll_dropWhile_le isBetweenItems cs
    rw [_h] at h0
    have h1 := Item.take_weight (line + linesIn (cs.takeWhile isBetweenItems)) first after
  · exact Nat.lt_of_lt_of_le (Nat.lt_of_le_of_lt (Nat.le_add_left _ _) h1) h0
  all_goals
    rw [show (Item.take (line + linesIn (cs.takeWhile isBetweenItems)) first after).item = _
      from _h'] at h1
    exact Nat.lt_of_lt_of_le (Nat.lt_of_le_of_lt (Nat.le_add_right _ _) h1) h0

/-- The rest of a first rule that only names the character set: up to its semicolon or block. -/
def skipCharset (cs : List ComponentValue) : List ComponentValue × List ComponentValue :=
  match cs.dropWhile (!endsPrelude ·) with
  | [] => (cs, [])
  | c :: rest => (cs.takeWhile (!endsPrelude ·) ++ [c], rest)

theorem skipCharset_weight (cs : List ComponentValue) :
    weightAll (skipCharset cs).2 ≤ weightAll cs := by
  have h := weightAll_dropWhile_le (!endsPrelude ·) cs
  unfold skipCharset
  split
  · simp [weightAll]
  · rename_i c rest hd
    rw [hd] at h
    simp only [weightAll] at h ⊢; omega

/-- The top-level rules from `line` on; `fresh` until the first rule has been met. -/
def readRules (fresh : Bool) (line : Nat) (cs : List ComponentValue) :
    Reported SyntaxError (List Rule) :=
  match _h : cs.dropWhile isBetweenRules with
  | [] => .ok []
  | first :: after =>
    let start := line + linesIn (cs.takeWhile isBetweenRules)
    match first.kind? with
    | some (.atKeyword name) =>
      if fresh && Text.sameIgnoringAsciiCase name "charset" then
        readRules false (start + linesIn (first :: (skipCharset after).1)) (skipCharset after).2
      else
        let front := AtFront.take (start + linesIn [first]) after
        let inner := readBody front.inside front.contents
        let later := readRules false front.line front.rest
        ⟨inner.2 ++ later.notices, later.outcome.map (.atRule name front.params inner.1 :: ·)⟩
    | _ =>
      let prelude := (first :: after).takeWhile (!·.isCurly)
      let reached := start + linesIn prelude
      match _h' : (first :: after).dropWhile (!·.isCurly) with
      | [] => .error ⟨reached, .endOfInput, slice (first :: after)⟩
      | c :: rest =>
        if (slice prelude).isEmpty then .error ⟨reached, .noSelector, sliceToBlock prelude⟩
        else
          let inner := readBody reached c.contents
          let later := readRules false (reached + linesIn [c]) rest
          ⟨inner.2 ++ later.notices, later.outcome.map (.rule (slice prelude) inner.1 :: ·)⟩
termination_by weightAll cs
decreasing_by
  all_goals
    have h0 := weightAll_dropWhile_le isBetweenRules cs
    rw [_h] at h0
    have h1 := weight_pos first
    simp only [weightAll] at h0
  · have := skipCharset_weight after
    omega
  · have := AtFront.take_weight (line + linesIn (cs.takeWhile isBetweenRules) + linesIn [first]) after
    omega
  · have h2 := weightAll_dropWhile_le (!·.isCurly) (first :: after)
    rw [_h'] at h2
    have h3 := weight_pos c
    simp only [weightAll] at h2; omega

def parse (css : String) : Reported SyntaxError (List Rule) :=
  readRules true 1 (ComponentValue.scan css.toList)

end Stencil.Style
