import Stencil.Text.GraphemeBreak

/-! Cutting text into extended grapheme clusters, the characters that a reader sees as one. -/
namespace Stencil.Text

/-- How far the text read so far goes into a sequence that a joiner continues. -/
inductive JoinState where
  | none
  | started
  | joined
  deriving DecidableEq, Repr

/-- What the clusters before a character decide about it. -/
structure GraphemeContext where
  last : GraphemeClass
  oddIndicators : Bool
  /-- A pictograph, perhaps with marks; `joined` once a joiner has followed. -/
  pictograph : JoinState
  /-- A consonant, perhaps with marks; `joined` once a virama has followed. -/
  conjunct : JoinState

namespace GraphemeContext

def start : GraphemeContext := ⟨.control, false, .none, .none⟩

def continues (k : GraphemeClass) : Bool := k == .extend || k == .zeroWidthJoiner

/-- A mark between a consonant and the next; the non-joiner asks for the two to stay apart. -/
def keepsConjunct (c : Char) (k : GraphemeClass) : Bool := continues k && c.toNat != 0x200C

def step (ctx : GraphemeContext) (c : Char) : GraphemeContext :=
  let k := graphemeClass c
  { last := k
    oddIndicators := k == .regionalIndicator && !ctx.oddIndicators
    pictograph :=
      if isPictographic c then .started
      else if ctx.pictograph == .started && k == .zeroWidthJoiner then .joined
      else if ctx.pictograph == .started && k == .extend then .started
      else .none
    conjunct :=
      if isConjunctConsonant c then .started
      else if ctx.conjunct != .none && isConjunctLinker c then .joined
      else if keepsConjunct c k then ctx.conjunct
      else .none }

def isBreaking (k : GraphemeClass) : Bool :=
  k == .control || k == .carriageReturn || k == .lineFeed

def hangulJoins (a b : GraphemeClass) : Bool :=
  match a, b with
  | .hangulL, .hangulL | .hangulL, .hangulV | .hangulL, .hangulLV | .hangulL, .hangulLVT => true
  | .hangulLV, .hangulV | .hangulLV, .hangulT | .hangulV, .hangulV | .hangulV, .hangulT => true
  | .hangulLVT, .hangulT | .hangulT, .hangulT => true
  | _, _ => false

def joins (ctx : GraphemeContext) (c : Char) : Bool :=
  let k := graphemeClass c
  if ctx.last == .carriageReturn && k == .lineFeed then true
  else if isBreaking ctx.last || isBreaking k then false
  else
    hangulJoins ctx.last k || continues k || k == .spacingMark || ctx.last == .prepend ||
      (ctx.conjunct == .joined && isConjunctConsonant c) ||
      (ctx.pictograph == .joined && isPictographic c) ||
      (ctx.oddIndicators && k == .regionalIndicator)

end GraphemeContext

/-- The clusters of a text, given the context before it; the first one may be empty and then continues
what stands before. -/
def graphemesFrom (ctx : GraphemeContext) : List Char → List (List Char)
  | [] => [[]]
  | c :: s =>
    match graphemesFrom (ctx.step c) s with
    | [] => [[c]]
    | first :: rest => if ctx.joins c then (c :: first) :: rest else [] :: (c :: first) :: rest

def graphemes (s : List Char) : List (List Char) :=
  (graphemesFrom .start s).filter (!·.isEmpty)

end Stencil.Text
